import TypeConversion.Proofs.Node.Resolution
import TypeConversion.Proofs.Registry.Acyclic

/-!
# Walks over nodes come to an end

Without circles in the bounds, every walk that resolves a node finds an answer.  A step from a node
leads to a node whose contexts are less deep, or to one in the same context whose expression is
unfolded from that of the first; what a variable is bound to lies in a context that is less deep.
Without circles in the inheritance, every node has a view as every erasure, or none.

**Results**

* `exists_stepsTo`, `exists_arrayIs`, `exists_componentIs`, `exists_resolvesTo`,
  `exists_genericsAre`: each walk finds something;
* `exists_viewIs`: so does the search for a view.
-/

namespace TypeConversion

namespace Node

open Walk Registry

mutual

/-- How deep the contexts of a node lie in each other. -/
def depth : Node → Nat
  | written _ none => 0
  | written _ (some c) => depth c + 1
  | arrayOf n => depth n + 1
  | applied _ _ given => depthGiven given + 1

/-- The depth of the deepest of the given nodes. -/
def depthGiven : List (Option Node) → Nat
  | [] => 0
  | none :: rest => depthGiven rest
  | some n :: rest => max (depth n) (depthGiven rest)

end

theorem depth_le_depthGiven {n : Node} {given : List (Option Node)} (h : some n ∈ given) :
    n.depth ≤ depthGiven given := by
  induction given with
  | nil => simp at h
  | cons head rest ih =>
    rcases List.mem_cons.mp h with rfl | h
    · rw [depthGiven]
      omega
    · have := ih h
      cases head with
      | none => simpa [depthGiven] using this
      | some m =>
        rw [depthGiven]
        omega

/-- A node with a smaller context, or with an expression unfolded in the same context. -/
def Below (r : Registry) (m n : Node) : Prop :=
  m.depth < n.depth ∨ m.depth = n.depth ∧ r.Unfolds n.expr m.expr

theorem below_wellFounded {r : Registry} (h : r.AcyclicBounds) : WellFounded (Below r) := by
  refine Subrelation.wf (fun {m n} hmn => ?_)
    (InvImage.wf (fun n : Node => (n.depth, n.expr))
      (WellFounded.prod_lex wellFounded_lt h.wellFounded))
  rcases hmn with hlt | ⟨heq, hunfolds⟩
  · exact Prod.Lex.left _ _ hlt
  · change Prod.Lex _ _ (m.depth, m.expr) (n.depth, n.expr)
    rw [heq]
    exact Prod.Lex.right _ hunfolds

theorem depth_written (e e' : TypeExpr) (c : Option Node) :
    (written e c).depth = (written e' c).depth := by
  cases c <;> simp [depth]

theorem below_written {r : Registry} {e e' : TypeExpr} (c : Option Node) (h : r.Unfolds e e') :
    Below r (written e' c) (written e c) :=
  .inr ⟨depth_written .., by simpa using h⟩

/-- The sibling of a node is not deeper. -/
theorem below_sibling {r : Registry} {n : Node} {e : TypeExpr} (h : r.Unfolds n.expr e) :
    Below r (n.sibling e) n := by
  cases n with
  | written t c => exact below_written c (by simpa using h)
  | arrayOf n => exact .inl (by simp [sibling, context, depth])
  | applied raw params given => exact .inl (by simp [sibling, context, depth])

variable {r : Registry}

/-- What a node binds a variable to is not deeper than the node. -/
def FindsVariables (r : Registry) (n : Node) : Prop :=
  ∀ v, ∃ bound, VariableIs r (some n) v bound ∧ ∀ b ∈ bound, b.depth ≤ n.depth

/-- A step from a node whose context finds variables leads below. -/
theorem exists_stepsTo_of_context (n : Node)
    (h : ∀ c, n.context = some c → c.depth < n.depth → FindsVariables r c) :
    ∃ t, StepsTo r n t ∧ ∀ m ∈ t, Below r m n := by
  cases he : n.expr with
  | plain e => exact ⟨none, (stepsTo_of_plain he _).mpr rfl, by simp⟩
  | genericArray c => exact ⟨none, (stepsTo_of_genericArray he _).mpr rfl, by simp⟩
  | parameterized raw args owner =>
    refine ⟨_, (stepsTo_of_parameterized he _).mpr rfl, ?_⟩
    rintro _ ⟨⟩
    exact below_sibling (he ▸ .raw raw args owner)
  | wildcard upper lower =>
    refine ⟨_, (stepsTo_of_wildcard he _).mpr rfl, ?_⟩
    intro m hm
    obtain ⟨b, hb, rfl⟩ := Option.map_eq_some_iff.mp hm
    exact below_sibling (he ▸ .wildcard hb)
  | typeVar v =>
    have hbound : ∃ bound, Binds r n.context v bound ∧ ∀ b ∈ bound, b.depth < n.depth := by
      cases n with
      | arrayOf _ | applied _ _ _ => exact ⟨none, (binds_none_iff v _).mpr rfl, by simp⟩
      | written e c =>
        cases c with
        | none => exact ⟨none, (binds_none_iff v _).mpr rfl, by simp⟩
        | some c =>
          have hlt : c.depth < (written e (some c)).depth := by simp [depth]
          obtain ⟨bound, hbound, hdepth⟩ := h c rfl hlt v
          exact ⟨bound, (binds_some_iff c v bound).mpr hbound,
            fun b hb => (hdepth b hb).trans_lt hlt⟩
    obtain ⟨bound, hbound, hdepth⟩ := hbound
    refine ⟨_, (stepsTo_of_typeVar he _).mpr ⟨bound, hbound, rfl⟩, ?_⟩
    intro m hm
    rcases Option.or_eq_some_iff.mp hm with hm | ⟨-, hm⟩
    · exact .inl (hdepth m hm)
    · obtain ⟨b, hb, rfl⟩ := Option.map_eq_some_iff.mp hm
      exact below_sibling (he ▸ .typeVar hb)

/-- A lookup that falls back to a context finds something if both lookups do. -/
theorem exists_orElse {c first : Option Node} {v : TypeVarId} {d : Nat}
    (hfirst : ∀ b ∈ first, b.depth ≤ d)
    (hc : ∃ bound, VariableIs r c v bound ∧ ∀ b ∈ bound, b.depth ≤ d) :
    ∃ bound, OrElse (r := r) c v first bound ∧ ∀ b ∈ bound, b.depth ≤ d := by
  cases first with
  | none => exact hc
  | some found => exact ⟨some found, rfl, hfirst⟩

theorem findsVariables (h : r.AcyclicBounds) (n : Node) : FindsVariables r n := by
  induction n using (below_wellFounded h).induction with
  | _ n ih =>
  intro v
  have hoption : ∀ m : Option Node, (∀ x ∈ m, Below r x n) →
      ∃ bound, VariableIs r m v bound ∧ ∀ b ∈ bound, b.depth ≤ n.depth := by
    intro m hm
    cases m with
    | none => exact ⟨none, (variableIs_none_iff v _).mpr rfl, by simp⟩
    | some m =>
      have hbelow := hm m rfl
      obtain ⟨bound, hbound, hdepth⟩ := ih m hbelow v
      refine ⟨bound, hbound, fun b hb => (hdepth b hb).trans ?_⟩
      rcases hbelow with hlt | ⟨heq, -⟩
      · exact hlt.le
      · exact heq.le
  cases n with
  | arrayOf n => exact ⟨none, (variableIs_arrayOf_iff ..).mpr rfl, by simp⟩
  | applied raw params given =>
    refine ⟨_, (variableIs_applied_iff ..).mpr rfl, ?_⟩
    intro b hb
    have hbound := (variableIs_applied_iff (r := r) raw params given v _).mpr hb.symm
    have := depth_le_depthGiven (mem_given_of_variableIs hbound)
    rw [depth]
    omega
  | written e c =>
    have hcontext : ∀ x ∈ c, Below r x (written e c) := by
      rintro x ⟨⟩
      exact .inl (by simp [depth])
    cases e with
    | plain e =>
      simp only [variableIs_plain_iff]
      exact hoption c hcontext
    | genericArray t =>
      simp only [variableIs_genericArray_iff]
      exact hoption c hcontext
    | typeVar w =>
      obtain ⟨t, ht, hbelow⟩ := exists_stepsTo_of_context (r := r) (written (.typeVar w) c)
        fun c' _ hlt => ih c' (.inl hlt)
      obtain ⟨bound, hbound, hdepth⟩ := hoption t hbelow
      exact ⟨bound, (variableIs_typeVar_iff ..).mpr ⟨t, ht, hbound⟩, hdepth⟩
    | parameterized raw args owner =>
      simp only [variableIs_parameterized_iff]
      cases (r.typeParameters raw).idxOf? v with
      | some i =>
        refine ⟨_, rfl, ?_⟩
        intro b hb
        obtain ⟨a, -, rfl⟩ := Option.map_eq_some_iff.mp hb
        exact (depth_written ..).le
      | none =>
        have howner : ∀ x ∈ owner.map fun o => written o c,
            Below r x (written (.parameterized raw args owner) c) := by
          intro x hx
          obtain ⟨o, rfl, rfl⟩ := Option.map_eq_some_iff.mp hx
          exact below_written c (.owner raw args o)
        obtain ⟨first, hfirst, hdepth⟩ := hoption _ howner
        obtain ⟨bound, hbound, hdepth⟩ := exists_orElse hdepth (hoption c hcontext)
        exact ⟨bound, ⟨first, hfirst, hbound⟩, hdepth⟩
    | wildcard upper lower =>
      simp only [variableIs_wildcard_iff]
      have hbound : ∀ x ∈ (r.wildcardBound? upper lower).map fun b => written b c,
          Below r x (written (.wildcard upper lower) c) := by
        intro x hx
        obtain ⟨b, hb, rfl⟩ := Option.map_eq_some_iff.mp hx
        exact below_written c (.wildcard hb)
      obtain ⟨first, hfirst, hdepth⟩ := hoption _ hbound
      obtain ⟨bound, hbound, hdepth⟩ := exists_orElse hdepth (hoption c hcontext)
      exact ⟨bound, ⟨first, hfirst, hbound⟩, hdepth⟩

theorem exists_stepsTo (h : r.AcyclicBounds) (n : Node) :
    ∃ t, StepsTo r n t ∧ ∀ m ∈ t, Below r m n :=
  exists_stepsTo_of_context n fun c _ _ => findsVariables h c

/-- A walk by single steps comes to an end if it does where it stops and goes on below. -/
theorem exists_of_steps (h : r.AcyclicBounds) {α : Type} {found : Node → α → Prop}
    (hstop : ∀ n, n.expr.isFinal = true → (∀ m, Below r m n → ∃ a, found m a) → ∃ a, found n a)
    {default : α}
    (hstep : ∀ n, n.expr.isFinal = false → ∀ a, (∃ t, StepsTo r n t ∧
      match t with
      | some t => found t a
      | none => a = default) → found n a) (n : Node) : ∃ a, found n a := by
  induction n using (below_wellFounded h).induction with
  | _ n ih =>
  cases hfinal : n.expr.isFinal with
  | true => exact hstop n hfinal ih
  | false =>
    obtain ⟨t, ht, hbelow⟩ := exists_stepsTo h n
    cases t with
    | none => exact ⟨default, hstep n hfinal default ⟨none, ht, rfl⟩⟩
    | some t =>
      obtain ⟨a, ha⟩ := ih t (hbelow t rfl)
      exact ⟨a, hstep n hfinal a ⟨some t, ht, ha⟩⟩

theorem exists_arrayIs (h : r.AcyclicBounds) (n : Node) : ∃ b, ArrayIs r n b := by
  refine exists_of_steps h ?_ (fun n hn b => (arrayIs_of_step hn b).mpr) n
  intro n hn _
  cases he : n.expr with
  | plain e => exact ⟨_, (arrayIs_of_plain he _).mpr rfl⟩
  | genericArray c => exact ⟨_, (arrayIs_of_genericArray he _).mpr rfl⟩
  | _ => simp [he, TypeExpr.isFinal] at hn

/-- An array whose component is no plain class consists of a node below it. -/
theorem exists_componentIs_of_genericArray {n : Node} {t : TypeExpr}
    (he : n.expr = .genericArray t) : ∃ c, ComponentIs r n (some c) ∧ Below r c n := by
  cases n with
  | arrayOf n => exact ⟨n, (componentIs_arrayOf_iff ..).mpr rfl, .inl (by simp [depth])⟩
  | applied raw params given => simp [expr] at he
  | written e context =>
    obtain rfl : e = .genericArray t := by simpa using he
    exact ⟨_, (componentIs_genericArray_iff ..).mpr rfl, below_written context (.component t)⟩

theorem exists_componentIs (h : r.AcyclicBounds) (n : Node) : ∃ c, ComponentIs r n c := by
  refine exists_of_steps h ?_ (fun n hn c => (componentIs_of_step hn c).mpr) n
  intro n hn _
  cases n with
  | arrayOf n => exact ⟨_, (componentIs_arrayOf_iff ..).mpr rfl⟩
  | applied raw params given => simp [expr, TypeExpr.isFinal] at hn
  | written e context =>
    cases e with
    | plain e => exact ⟨_, (componentIs_plain_iff ..).mpr rfl⟩
    | genericArray t => exact ⟨_, (componentIs_genericArray_iff ..).mpr rfl⟩
    | _ => simp [TypeExpr.isFinal] at hn

theorem exists_resolvesTo (h : r.AcyclicBounds) (n : Node) : ∃ e, ResolvesTo r n e := by
  refine exists_of_steps h ?_ (fun n hn e => (resolvesTo_of_step hn e).mpr) n
  intro n hn ih
  cases he : n.expr with
  | plain e => exact ⟨_, (resolvesTo_of_plain he _).mpr rfl⟩
  | genericArray t =>
    obtain ⟨c, hc, hbelow⟩ := exists_componentIs_of_genericArray (r := r) he
    obtain ⟨e, hfound⟩ := ih c hbelow
    exact ⟨_, (resolvesTo_of_genericArray he _).mpr ⟨some c, hc, e, hfound, rfl⟩⟩
  | _ => simp [he, TypeExpr.isFinal] at hn

theorem exists_genericsAre (h : r.AcyclicBounds) (n : Node) : ∃ args, GenericsAre r n args := by
  induction n using (below_wellFounded h).induction with
  | _ n ih =>
  cases n with
  | arrayOf n => exact ⟨_, (genericsAre_arrayOf_iff ..).mpr rfl⟩
  | applied raw params given => exact ⟨_, (genericsAre_applied_iff ..).mpr rfl⟩
  | written e context =>
    cases hclass : e.isClass with
    | true =>
      cases e with
      | plain e => exact ⟨_, (genericsAre_plain_iff ..).mpr rfl⟩
      | parameterized raw ts owner => exact ⟨_, (genericsAre_parameterized_iff ..).mpr rfl⟩
      | _ => simp [TypeExpr.isClass] at hclass
    | false =>
      obtain ⟨t, ht, hbelow⟩ := exists_stepsTo h (written e context)
      cases t with
      | none => exact ⟨[], (genericsAre_of_step hclass _).mpr ⟨none, ht, rfl⟩⟩
      | some t =>
        obtain ⟨args, hargs⟩ := ih t (hbelow t rfl)
        exact ⟨args, (genericsAre_of_step hclass _).mpr ⟨some t, ht, hargs⟩⟩

/-! ## Views -/

/-- A type expression may stand for what it resolves to in any context. -/
theorem ResolvesTo.standsFor {t : TypeExpr} {c : Option Node} {e : Erasure}
    (h : ResolvesTo r (written t c) (some e)) : r.StandsFor t e := by
  induction hw : t.weight using Nat.strong_induction_on generalizing t e with
  | _ w ih =>
  subst hw
  cases t with
  | plain a =>
    obtain rfl : e = a := by simpa using (resolvesTo_of_plain (expr_written ..) _).mp h
    exact .plain e
  | typeVar v => exact .typeVar v e
  | parameterized raw args owner =>
    obtain ⟨t, ht, h⟩ := (resolvesTo_of_step (by simp [TypeExpr.isFinal]) _).mp h
    obtain rfl := (stepsTo_of_parameterized (expr_written ..) _).mp ht
    obtain rfl : e = .ofClass raw := by
      simpa using (resolvesTo_of_plain (expr_written ..) _).mp h
    exact .parameterized raw args owner
  | wildcard upper lower =>
    obtain ⟨t, ht, h⟩ := (resolvesTo_of_step (by simp [TypeExpr.isFinal]) _).mp h
    obtain rfl := (stepsTo_of_wildcard (expr_written ..) _).mp ht
    cases hb : r.wildcardBound? upper lower with
    | none => simp [hb] at h
    | some b =>
      simp only [hb, Option.map_some] at h
      have hlt := (Unfolds.wildcard hb).weight_lt.resolve_right (by simp)
      exact .wildcard hb (ih b.weight hlt h rfl)
  | genericArray component =>
    obtain ⟨c', hc', h⟩ := (resolvesTo_of_genericArray (expr_written ..) _).mp h
    obtain rfl := (componentIs_genericArray_iff ..).mp hc'
    obtain ⟨found, hfound, hbind⟩ := h
    cases found with
    | none => simp at hbind
    | some a =>
      have hlt : component.weight < (TypeExpr.genericArray component).weight := by
        simp [TypeExpr.weight]
      exact .genericArray (ih component.weight hlt hfound rfl) hbind.symm

/-- A supertype of a node resolves to something that the erasure of the node inherits from. -/
theorem ResolvesTo.inherits {n : Node} {t : TypeExpr} {e parent : Erasure}
    (ht : r.IsSupertype e t) (h : ResolvesTo r (within (some n) t) (some parent)) :
    r.Inherits e parent :=
  ⟨t, ht, h.standsFor⟩

theorem exists_firstViewIs {ns : List Node} {target : Erasure}
    (h : ∀ n ∈ ns, ∃ view, ViewIs r (some n) target view) :
    ∃ view, FirstViewIs r ns target view := by
  induction ns with
  | nil => exact ⟨none, (firstViewIs_nil_iff ..).mpr rfl⟩
  | cons n rest ih =>
    obtain ⟨first, hfirst⟩ := h n List.mem_cons_self
    obtain ⟨view, hview⟩ := ih fun m hm => h m (List.mem_cons_of_mem _ hm)
    cases first with
    | none => exact ⟨view, (firstViewIs_cons_iff ..).mpr ⟨none, hfirst, hview⟩⟩
    | some found => exact ⟨some found, (firstViewIs_cons_iff ..).mpr ⟨some found, hfirst, rfl⟩⟩

/-- A first view is the view of one of the nodes. -/
theorem FirstViewIs.exists_mem {ns : List Node} {target : Erasure} {view : Node}
    (h : FirstViewIs r ns target (some view)) :
    ∃ n ∈ ns, ViewIs r (some n) target (some view) := by
  induction ns with
  | nil => simp [firstViewIs_nil_iff] at h
  | cons n rest ih =>
    obtain ⟨first, hfirst, h⟩ := (firstViewIs_cons_iff ..).mp h
    cases first with
    | some found =>
      obtain rfl := Option.some.inj h
      exact ⟨n, List.mem_cons_self, hfirst⟩
    | none =>
      obtain ⟨m, hm, hview⟩ := ih h
      exact ⟨m, List.mem_cons_of_mem _ hm, hview⟩

/-- What holds of a node and is handed on to its supertypes holds of its views. -/
theorem view_induction (hi : r.AcyclicInheritance) (good : Node → Prop)
    (hsuper : ∀ n e t, good n → ResolvesTo r n (some e) → r.IsSupertype e t →
      good (within (some n) t)) {n : Node} (hn : good n) {target : Erasure} {view : Node}
    (h : ViewIs r (some n) target (some view)) : good view := by
  obtain ⟨found, hfound, h'⟩ := (viewIs_some_iff ..).mp h
  cases found with
  | none =>
    obtain rfl := Option.some.inj h'
    exact hn
  | some e =>
    clear h'
    induction e using hi.wellFounded.induction generalizing n view with
    | _ e ih =>
    have hview : ∀ t, r.IsSupertype e t → ∀ v,
        ViewIs r (some (within (some n) t)) target (some v) → good v := by
      intro t ht v hv
      have hgood := hsuper n e t hn hfound ht
      obtain ⟨parent, hparent, hv'⟩ := (viewIs_some_iff ..).mp hv
      cases parent with
      | none =>
        obtain rfl := Option.some.inj hv'
        exact hgood
      | some parent => exact ih parent (hparent.inherits ht) hgood hv hparent
    obtain ⟨e', he', h⟩ := (viewIs_some_iff ..).mp h
    obtain rfl := hfound.unique (resolve_steady r n) he'
    by_cases heq : e = target
    · simp only [heq, if_true] at h
      obtain rfl := Option.some.inj h
      exact hn
    · simp only [heq, if_false] at h
      obtain ⟨first, hfirst, h⟩ := h
      cases first with
      | some found =>
        obtain rfl := Option.some.inj h
        obtain ⟨m, hm, hv⟩ := hfirst.exists_mem
        obtain ⟨t, ht, rfl⟩ := List.mem_map.mp hm
        exact hview t (.inr ht) _ hv
      | none =>
        cases ht : r.genericSuperclass e with
        | none => simp [superNode?, ht, viewIs_none_iff] at h
        | some t => exact hview t (.inl ht) view (by simpa [superNode?, ht] using h)

/-- A search for a view comes to an end where nodes resolve and inheritance has no circles. -/
theorem exists_viewIs_of_resolves (h : r.AcyclicInheritance) (good : Node → Prop)
    (hresolve : ∀ n, good n → ∃ e, ResolvesTo r n e)
    (hsuper : ∀ n e t, good n → ResolvesTo r n (some e) → r.IsSupertype e t →
      good (within (some n) t)) (n : Node) (hn : good n) (target : Erasure) :
    ∃ view, ViewIs r (some n) target view := by
  obtain ⟨found, hfound⟩ := hresolve n hn
  cases found with
  | none => exact ⟨_, (viewIs_some_iff ..).mpr ⟨none, hfound, rfl⟩⟩
  | some e =>
    induction e using h.wellFounded.induction generalizing n with
    | _ e ih =>
    have hview : ∀ t, r.IsSupertype e t →
        ∃ view, ViewIs r (some (within (some n) t)) target view := by
      intro t ht
      have hgood := hsuper n e t hn hfound ht
      obtain ⟨parent, hparent⟩ := hresolve _ hgood
      cases parent with
      | none => exact ⟨_, (viewIs_some_iff ..).mpr ⟨none, hparent, rfl⟩⟩
      | some parent => exact ih parent (hparent.inherits ht) _ hgood hparent
    by_cases he : e = target
    · exact ⟨some n, (viewIs_some_iff ..).mpr ⟨some e, hfound, by simp [he]⟩⟩
    · have hfirst : ∃ first, FirstViewIs r (interfaceNodes r n e) target first := by
        refine exists_firstViewIs fun m hm => ?_
        obtain ⟨t, ht, rfl⟩ := List.mem_map.mp hm
        exact hview t (.inr ht)
      have hsuperView : ∃ view, ViewIs r (superNode? r n e) target view := by
        cases ht : r.genericSuperclass e with
        | none => exact ⟨none, by simp [superNode?, ht, viewIs_none_iff]⟩
        | some t => simpa [superNode?, ht] using hview t (.inl ht)
      obtain ⟨first, hfirst⟩ := hfirst
      obtain ⟨view, hsuperView⟩ := hsuperView
      cases first with
      | none =>
        refine ⟨view, (viewIs_some_iff ..).mpr ⟨some e, hfound, ?_⟩⟩
        simp only [he, if_false]
        exact ⟨none, hfirst, hsuperView⟩
      | some found =>
        refine ⟨some found, (viewIs_some_iff ..).mpr ⟨some e, hfound, ?_⟩⟩
        simp only [he, if_false]
        exact ⟨some found, hfirst, rfl⟩

theorem exists_viewIs (hb : r.AcyclicBounds) (hi : r.AcyclicInheritance) (n : Option Node)
    (target : Erasure) : ∃ view, ViewIs r n target view := by
  cases n with
  | none => exact ⟨none, (viewIs_none_iff ..).mpr rfl⟩
  | some n =>
    exact exists_viewIs_of_resolves hi (fun _ => True)
      (fun n _ => exists_resolvesTo hb n) (fun _ _ _ _ _ _ => trivial) n trivial target

end Node

end TypeConversion
