import TypeConversion.Proofs.Conversion.Element
import TypeConversion.Proofs.Node.VariableFree
import TypeConversion.Proofs.Assignable.Plan
import TypeConversion.Proofs.Assignable.Written
import TypeConversion.Proofs.Registry.Subclass

/-!
# Going down to the elements comes to an end

A type without variables, its elements, the elements of these and so on come to an end if no classes
but those of the bootstrap registry are collections.  The collections there have one parameter,
which has no bound, and hand it on to their supertypes.  So the argument of a view as a collection
unwinds to what the viewed node gives its class as an argument, and that is a smaller type without
variables; or it is nothing, and then there are no more elements.

**Results**

* `mem_collectionClasses_of_inherits`: what inherits from collections;
* `Node.ComesBelow.argument`: the argument of a view as a collection is smaller;
* `acc_hasElement`: the elements of a type without variables come to an end;
* `element?_total`: at every level it is found whether there are elements.
-/

namespace TypeConversion

open Walk

namespace Registry

/-! ## Bootstrap collections -/

/-- A registry in which the type variables of the bootstrap classes are declared as they were. -/
def KeepsVariables (r : Registry) : Prop :=
  ∀ v d, bootstrap.typeParam? v = some d → r.typeParam? v = some d

/-- Nothing but bootstrap classes inherits from the class of collections. -/
def NoNewCollections (r : Registry) : Prop :=
  ∀ c, Relation.TransGen r.Inherits (.ofClass c) (.ofClass r.wellKnown.collection) →
    (bootstrap.class? c).isSome = true

/-- The bootstrap classes that are collections. -/
def collectionClasses : List ClassId :=
  [Bootstrap.wellKnown.collection, Bootstrap.wellKnown.list, Bootstrap.wellKnown.set,
    Bootstrap.abstractCollection, Bootstrap.abstractList, Bootstrap.wellKnown.arrayList,
    Bootstrap.abstractSet, Bootstrap.wellKnown.hashSet, Bootstrap.wellKnown.linkedHashSet]

/-- The bootstrap classes that are collections, and all that is above them. -/
def collectionLineage : List ClassId :=
  collectionClasses ++ [Bootstrap.wellKnown.iterable, Bootstrap.wellKnown.cloneable,
    Bootstrap.wellKnown.serializable, Bootstrap.wellKnown.object]

variable {r : Registry}

theorem KeepsVariables.addTypeParam (h : r.KeepsVariables) (d : TypeParamDef) :
    (r.addTypeParam d).1.KeepsVariables := by
  intro v old hold
  have hdeclared : r.typeParams[v.index.toNat]? = some old := h v old hold
  obtain ⟨hlt, heq⟩ := Array.getElem?_eq_some_iff.mp hdeclared
  change (r.typeParams.push d)[v.index.toNat]? = some old
  rw [Array.getElem?_push_lt hlt, heq]

theorem KeepsVariables.push (h : r.KeepsVariables) (d : ClassDef) : (r.push d).KeepsVariables := h

/-- Classes below nothing but the top class are no collections. -/
theorem noNewCollections_of_check (hbase : r.ExtendsBase)
    (h : ∀ entry ∈ r.numbered, (bootstrap.class? entry.1).isSome = true ∨
      ∀ t ∈ r.supertypeExprs (.ofClass entry.1), t = .plain r.object) : r.NoNewCollections := by
  intro c hc
  obtain ⟨b, ⟨t, ht, hstands⟩, hrest⟩ := Relation.TransGen.head'_iff.mp hc
  obtain ⟨d, hd⟩ := exists_class?_of_isSupertype ht
  rcases h (c, d) (mem_numbered hd) with hbootstrap | hobject
  · exact hbootstrap
  · obtain rfl := hobject t ((isSupertype_iff_mem ..).mp ht)
    obtain rfl : b = r.object := hstands.eq_of_head? rfl
    have hnone : ∀ a, ¬r.Inherits r.object a := by
      rintro a ⟨t, ht, -⟩
      have hisBase : IsBase r.object := by
        rw [object, hbase.wellKnown]
        exact ExtendsBase.isBase_of_isSome rfl
      rw [isSupertype_iff_mem, supertypeExprs, hbase.genericSuperclass_eq hisBase,
        hbase.genericInterfaces_eq hisBase, object, hbase.wellKnown] at ht
      exact absurd ht (by decide +revert)
    rcases Relation.ReflTransGen.cases_head hrest with heq | ⟨a, ha, -⟩
    · rw [object, hbase.wellKnown] at heq
      exact absurd heq (by decide)
    · exact absurd ha (hnone a)

/-- What has a collection as a supertype is a collection. -/
theorem mem_collectionClasses_of_isSupertype {c : ClassId} {t : TypeExpr} {p : ClassId}
    (ht : bootstrap.IsSupertype (.ofClass c) t) (hhead : t.head? = some (.ofClass p))
    (hp : p ∈ collectionClasses) : c ∈ collectionClasses := by
  have hbootstrap : ∀ entry ∈ bootstrap.numbered,
      ∀ t ∈ bootstrap.supertypeExprs (.ofClass entry.1),
      ∀ p ∈ collectionClasses, t.head? = some (.ofClass p) → entry.1 ∈ collectionClasses := by
    decide +kernel
  obtain ⟨d, hd⟩ := exists_class?_of_isSupertype ht
  exact hbootstrap (c, d) (mem_numbered hd) t ((isSupertype_iff_mem ..).mp ht) p hp hhead

/-- What inherits from collections is a bootstrap class that does. -/
theorem mem_collectionClasses_of_inherits (hbase : r.ExtendsBase) (hnew : r.NoNewCollections)
    {e : Erasure} (h : Relation.ReflTransGen r.Inherits e (.ofClass r.wellKnown.collection)) :
    ∃ c ∈ collectionClasses, e = .ofClass c := by
  induction h using Relation.ReflTransGen.head_induction_on with
  | refl => exact ⟨_, by rw [hbase.wellKnown]; decide, rfl⟩
  | @head a b hab hrest ih =>
    obtain ⟨p, hp, rfl⟩ := ih
    obtain ⟨t, ht, hstands⟩ := hab
    cases harray : a.isArray with
    | true =>
      obtain ⟨c, hc, rfl⟩ := exists_of_isSupertype_of_isArray harray ht
      have hnot : ∀ p ∈ collectionClasses, p ∉ [Bootstrap.wellKnown.object,
          Bootstrap.wellKnown.cloneable, Bootstrap.wellKnown.serializable] := by decide
      have heq : p = c := congrArg Erasure.element (hstands.eq_of_head? rfl)
      rw [hbase.wellKnown, ← heq] at hc
      exact absurd hc (hnot p hp)
    | false =>
      obtain ⟨c, rfl⟩ := exists_eq_ofClass harray
      have hdeclared := hnew c (.head' ⟨t, ht, hstands⟩ hrest)
      have hisBase := ExtendsBase.isBase_of_isSome hdeclared
      have ht : bootstrap.IsSupertype (.ofClass c) t := by
        rwa [IsSupertype, hbase.genericSuperclass_eq hisBase,
          hbase.genericInterfaces_eq hisBase] at ht
      obtain ⟨s, hs, -⟩ := exists_head?_of_isSupertype ht
      obtain rfl := hstands.eq_of_head? hs
      exact ⟨c, mem_collectionClasses_of_isSupertype ht hs hp, rfl⟩

/-- A supertype that is given the parameter of a class, or that has none. -/
def HandsOn (r : Registry) (c : ClassId) (t : TypeExpr) : Prop :=
  (∃ p ∈ collectionLineage, ∃ v ∈ r.typeParameters c, t = .parameterized p [.typeVar v] none) ∨
    ∃ p ∈ collectionLineage, r.typeParameters p = [] ∧ t = .ofClass p

section Lineage

variable {c : ClassId} (hc : c ∈ collectionLineage)

include hc

theorem isBase_of_mem_collectionLineage : IsBase (.ofClass c) := by
  have hbootstrap : ∀ c ∈ collectionLineage, (bootstrap.class? c).isSome = true := by decide
  exact ExtendsBase.isBase_of_isSome (hbootstrap c hc)

variable (hbase : r.ExtendsBase)

include hbase

theorem typeParameters_of_mem_collectionLineage :
    r.typeParameters c = bootstrap.typeParameters c := by
  obtain ⟨c', d, heq, hd⟩ := isBase_of_mem_collectionLineage hc
  obtain rfl : c = c' := congrArg Erasure.element heq
  rw [typeParameters, typeParameters, hbase.classes c d hd, hd]

/-- Collections hand their parameter on to their supertypes. -/
theorem handsOn_of_mem_collectionLineage {t : TypeExpr} (ht : r.IsSupertype (.ofClass c) t) :
    r.HandsOn c t := by
  have hbootstrap : ∀ c ∈ collectionLineage, ∀ t ∈ bootstrap.supertypeExprs (.ofClass c),
      (∃ p ∈ collectionLineage, ∃ v ∈ bootstrap.typeParameters c,
        t = .parameterized p [.typeVar v] none) ∨
      ∃ p ∈ collectionLineage, bootstrap.typeParameters p = [] ∧ t = .ofClass p := by
    decide +kernel
  have hisBase := isBase_of_mem_collectionLineage hc
  rw [isSupertype_iff_mem, supertypeExprs, hbase.genericSuperclass_eq hisBase,
    hbase.genericInterfaces_eq hisBase] at ht
  rcases hbootstrap c hc t ht with ⟨p, hp, v, hv, rfl⟩ | ⟨p, hp, hparams, rfl⟩
  · exact .inl ⟨p, hp, v, typeParameters_of_mem_collectionLineage hc hbase ▸ hv, rfl⟩
  · exact .inr ⟨p, hp, (typeParameters_of_mem_collectionLineage hp hbase).trans hparams, rfl⟩

/-- The parameters of collections have no bounds. -/
theorem declaredBound?_of_mem_collectionLineage (hvars : r.KeepsVariables) {v : TypeVarId}
    (hv : v ∈ r.typeParameters c) : r.declaredBound? v = none := by
  have hbootstrap : ∀ c ∈ collectionLineage, ∀ v ∈ bootstrap.typeParameters c,
      ∃ d ∈ bootstrap.typeParam? v, d.upperBounds = [] := by decide +kernel
  rw [typeParameters_of_mem_collectionLineage hc hbase] at hv
  obtain ⟨d, hd, hbounds⟩ := hbootstrap c hc v hv
  rw [declaredBound?, hvars v d hd, Option.bind_some, hbounds]
  rfl

end Lineage

end Registry

namespace Node

open Registry

variable {r : Registry}

/-! ## Views as collections -/

/-- What stands for nothing has no arguments. -/
theorem eq_nil_of_genericsAre (hb : r.AcyclicBounds) {n : Node} (hn : ResolvesTo r n none)
    {args : List (Option Node)} (h : GenericsAre r n args) : args = [] := by
  induction n using (below_wellFounded hb).induction with
  | _ n ih =>
  cases n with
  | arrayOf n => exact (genericsAre_arrayOf_iff ..).mp h
  | applied raw params given =>
    obtain ⟨t, ht, hn⟩ := (resolvesTo_of_step (by simp [expr, TypeExpr.isFinal]) _).mp hn
    obtain rfl := (stepsTo_of_parameterized (by rw [expr]) _).mp ht
    simp [resolvesTo_of_plain (n := sibling _ (.ofClass raw)) (expr_written ..)] at hn
  | written e context =>
    cases hclass : e.isClass with
    | true =>
      cases e with
      | plain e => simp [resolvesTo_of_plain (expr_written ..)] at hn
      | parameterized raw args owner =>
        obtain ⟨t, ht, hn⟩ := (resolvesTo_of_step (by simp [TypeExpr.isFinal]) _).mp hn
        obtain rfl := (stepsTo_of_parameterized (expr_written ..) _).mp ht
        simp [resolvesTo_of_plain (n := sibling _ (.ofClass raw)) (expr_written ..)] at hn
      | _ => simp [TypeExpr.isClass] at hclass
    | false =>
      obtain ⟨t, ht, h⟩ := (genericsAre_of_step hclass _).mp h
      obtain ⟨u, hu, hbelow⟩ := exists_stepsTo hb (written e context)
      obtain rfl := ht.unique hu
      cases t with
      | none => exact h
      | some m =>
        have hfinal : (written e context).expr.isFinal = false := by
          cases e with
          | genericArray t => simp [stepsTo_of_genericArray (expr_written ..)] at ht
          | _ => simp_all [TypeExpr.isFinal, TypeExpr.isClass]
        obtain ⟨u, hu, hn⟩ := (resolvesTo_of_step hfinal _).mp hn
        obtain rfl := hu.unique ht
        exact ih m (hbelow m rfl) hn h

/-- A view stands for what was looked for, or for nothing. -/
theorem resolvesTo_of_viewing (target : Erasure) (limit : Nat) :
    (∀ n v, asErasure r limit n target = some (some v) →
      ∃ found, ResolvesTo r v found ∧ ∀ p ∈ found, p = target) ∧
    (∀ ns v, firstView r limit ns target = some (some v) →
      ∃ found, ResolvesTo r v found ∧ ∀ p ∈ found, p = target) := by
  induction limit with
  | zero =>
    constructor
    · intro n v h
      cases n <;> simp [asErasure] at h
    · intro ns v h
      cases ns <;> simp [firstView] at h
  | succ limit ih =>
    constructor
    · intro n v h
      cases n with
      | none => simp [asErasure] at h
      | some n =>
        rw [asErasure] at h
        obtain ⟨e, he, h⟩ := Option.bind_eq_some_iff.mp h
        cases e with
        | none =>
          obtain rfl : n = v := by simpa using h
          exact ⟨none, .intro limit he, by simp⟩
        | some e =>
          dsimp only at h
          split at h
          · rename_i heq
            obtain rfl : n = v := by simpa using h
            exact ⟨some e, .intro limit he, by simpa using heq⟩
          · obtain ⟨ns, -, h⟩ := Option.bind_eq_some_iff.mp h
            obtain ⟨first, hfirst, h⟩ := Option.bind_eq_some_iff.mp h
            cases first with
            | some found =>
              obtain rfl : found = v := by simpa using h
              exact ih.2 ns found hfirst
            | none =>
              obtain ⟨s, -, h⟩ := Option.bind_eq_some_iff.mp h
              exact ih.1 s v h
    · intro ns v h
      cases ns with
      | nil => simp [firstView] at h
      | cons n rest =>
        rw [firstView] at h
        obtain ⟨first, hfirst, h⟩ := Option.bind_eq_some_iff.mp h
        cases first with
        | some found =>
          obtain rfl : found = v := by simpa using h
          exact ih.1 (some n) found hfirst
        | none => exact ih.2 rest v h

/-- A view stands for what was looked for, which is then inherited from, or for nothing. -/
theorem inherits_of_viewIs (hr : r.Acyclic) {n v : Node} {e target : Erasure}
    (he : ResolvesTo r n (some e)) (h : ViewIs r (some n) target (some v)) :
    ∃ found, ResolvesTo r v found ∧
      ∀ p ∈ found, p = target ∧ Relation.ReflTransGen r.Inherits e p := by
  obtain ⟨limit, hlimit⟩ := h
  obtain ⟨found, hfound, htarget⟩ := (resolvesTo_of_viewing target limit).1 (some n) v hlimit
  obtain ⟨found', hfound', hinherits⟩ := view_induction hr.inheritance
    (fun m => ∃ x, ResolvesTo r m x ∧ ∀ p ∈ x, Relation.ReflTransGen r.Inherits e p)
    (by
      rintro m a t ⟨x, hx, hm⟩ ha ht
      obtain rfl := hx.unique (resolve_steady r m) ha
      obtain ⟨y, hy⟩ := exists_resolvesTo hr.bounds (within (some m) t)
      refine ⟨y, hy, ?_⟩
      rintro p rfl
      exact (hm a rfl).tail (hy.inherits ht))
    ⟨some e, he, by rintro p ⟨⟩; exact .refl⟩ (.intro limit hlimit)
  obtain rfl := hfound.unique (resolve_steady r v) hfound'
  exact ⟨found, hfound, fun p hp => ⟨htarget p hp, hinherits p hp⟩⟩

/-- What a node hands on to its supertypes, its bindings and its arguments, comes below a size. -/
structure Supplies (r : Registry) (k : Nat) (n : Node) : Prop where
  bindings : ∀ v b, VariableIs r (some n) v (some b) → ComesBelow r k b
  arguments : ∀ args m, GenericsAre r n args → some m ∈ args → ComesBelow r k m

variable {k : Nat} {n : Node} {c : ClassId}

/-- A supertype is supplied with what the node has. -/
theorem Supplies.within {t : TypeExpr} (hb : r.AcyclicBounds) (hn : Supplies r k n)
    (hopen : ∀ v ∈ r.typeParameters c, r.declaredBound? v = none) (ht : r.HandsOn c t) :
    Supplies r k (within (some n) t) := by
  rcases ht with ⟨p, -, v, hv, rfl⟩ | ⟨p, -, hparams, rfl⟩
  · have hargument : ComesBelow r k (written (.typeVar v) (some n)) :=
      comesBelow_of_bindings hb (hopen v hv) (hn.bindings v)
    constructor
    · intro w b h
      have h := (variableIs_parameterized_iff ..).mp h
      cases hi : (r.typeParameters p).idxOf? w with
      | some i =>
        rw [hi] at h
        obtain ⟨t, ht, rfl⟩ := Option.map_eq_some_iff.mp h.symm
        obtain rfl := List.mem_singleton.mp (List.mem_of_getElem? ht)
        exact hargument
      | none =>
        rw [hi] at h
        obtain ⟨first, hfirst, h⟩ := h
        obtain rfl := (variableIs_none_iff ..).mp hfirst
        exact hn.bindings w b h
    · intro args m h hm
      obtain rfl := (genericsAre_parameterized_iff ..).mp h
      obtain rfl : written (.typeVar v) (some n) = m := by simpa [eq_comm] using hm
      exact hargument
  · constructor
    · exact fun w b h => hn.bindings w b ((variableIs_plain_iff ..).mp h)
    · intro args m h hm
      obtain rfl := (genericsAre_plain_iff ..).mp h
      simp [hparams] at hm

/-- A node that comes below a size supplies less, if the parameters of its class have no bounds. -/
theorem ComesBelow.supplies (hb : r.AcyclicBounds) (hn : ComesBelow r k n)
    (hc : ResolvesTo r n (some (.ofClass c)))
    (hopen : ∀ v ∈ r.typeParameters c, r.declaredBound? v = none) : ∃ j < k, Supplies r j n := by
  obtain ⟨t, ht, hsmall⟩ := hn
  have hresolves := (ht.found_iff (fun v c => resolvesTo_of_step (by simp [TypeExpr.isFinal])) _).mp
    hc
  cases t with
  | none => simp at hresolves
  | some m =>
    have hm := hsmall m rfl
    refine ⟨m.size, hm.size, ?_, ?_⟩
    · intro v b h
      obtain ⟨j, hj, hb⟩ := ComesBelow.small_of_variableIs (k := m.size + 1)
        ⟨some m, ht, by rintro _ ⟨⟩; exact ⟨hm.typeVars, Nat.lt_succ_self _⟩⟩ h
      exact (hb.mono (Nat.le_of_lt_succ hj)).comesBelow
    · intro args a h ha
      have h := (ht.found_iff (fun v c => genericsAre_of_step rfl) _).mp h
      rcases argument_cases hm.typeVars h ha with ha | ⟨v, owner, ha⟩
      · exact ha.comesBelow
      · obtain ⟨c', hc', hv⟩ := ha.declared
        obtain rfl : c' = c := congrArg Erasure.element
          (Option.some.inj (hc'.unique (resolve_steady r m) hresolves))
        rw [ha.eq]
        refine comesBelow_of_bindings hb (hopen v hv) fun b h => ?_
        exact ((Node.small_of_variableIs ha.typeVars h).mono ha.size).comesBelow

/-- The argument of a view as a collection is smaller, or stands for nothing. -/
theorem ComesBelow.argument (hbase : r.ExtendsBase) (hvars : r.KeepsVariables) (hr : r.Acyclic)
    (hnew : r.NoNewCollections) (hn : ComesBelow r k n) {view m : Node}
    (hview : ViewIs r (some n) (.ofClass r.wellKnown.collection) (some view))
    {args : List (Option Node)} (hargs : GenericsAre r view args) (hm : some m ∈ args) :
    ∃ j < k, ComesBelow r j m := by
  obtain ⟨e, he⟩ := exists_resolvesTo hr.bounds n
  cases e with
  | none =>
    obtain ⟨found, hfound, hself⟩ := (viewIs_some_iff ..).mp hview
    obtain rfl := hfound.unique (resolve_steady r n) he
    obtain rfl := Option.some.inj hself
    obtain rfl := eq_nil_of_genericsAre hr.bounds he hargs
    simp at hm
  | some e =>
    obtain ⟨found, hfound, hinherits⟩ := inherits_of_viewIs hr he hview
    cases found with
    | none =>
      obtain rfl := eq_nil_of_genericsAre hr.bounds hfound hargs
      simp at hm
    | some p =>
      obtain ⟨rfl, hreach⟩ := hinherits p rfl
      obtain ⟨c, hc, rfl⟩ := mem_collectionClasses_of_inherits hbase hnew hreach
      have hc : c ∈ collectionLineage := List.mem_append_left _ hc
      obtain ⟨j, hj, hsupplies⟩ := hn.supplies hr.bounds he fun v hv =>
        declaredBound?_of_mem_collectionLineage hc hbase hvars hv
      -- every node on the way to the view is of a class that hands its parameter on
      obtain ⟨-, -, -, hview⟩ := view_induction hr.inheritance
        (fun m => ∃ c ∈ collectionLineage, ResolvesTo r m (some (.ofClass c)) ∧ Supplies r j m)
        (by
          rintro m a t ⟨c, hc, hm, hsupplies⟩ ha ht
          obtain rfl := Option.some.inj (hm.unique (resolve_steady r m) ha)
          have hhands := handsOn_of_mem_collectionLineage hc hbase ht
          have hwithin := hsupplies.within hr.bounds (fun v hv =>
            declaredBound?_of_mem_collectionLineage hc hbase hvars hv) hhands
          rcases hhands with ⟨p, hp, v, -, rfl⟩ | ⟨p, hp, -, rfl⟩
          · exact ⟨p, hp, resolvesTo_of_head? rfl, hwithin⟩
          · exact ⟨p, hp, resolvesTo_of_head? rfl, hwithin⟩)
        ⟨c, hc, he, hsupplies⟩ hview
      exact ⟨j, hj, hview.arguments args m hargs hm⟩

end Node

namespace TypeDescriptor

open Registry

variable {r : Registry}

/-! ## Elements -/

/-- Where the elements of a type come from: its component, or the argument of its view. -/
theorem HasElement.cases {d element : TypeDescriptor} (h : d.HasElement element) :
    element.registry = d.registry ∧
      ∃ found, NodeResolvesTo d.registry element.node found ∧
        (d.isArray = true ∧ Finds (fun limit => componentNode limit d.registry d.node) element.node ∧
          found.or d.erasure.component? = some element.erasure ∨
        d.isArray = false ∧ d.isCollection = true ∧ element.erasure = found.getD d.registry.object ∧
          ∃ view args, Node.ViewIs d.registry d.node (.ofClass d.registry.wellKnown.collection) view ∧
            Finds (fun limit => Node.genericsOption d.registry limit view) args ∧
            element.node = args.head?.join) := by
  obtain ⟨limit, h⟩ := h
  rw [element?] at h
  split at h
  · rename_i harray
    obtain ⟨component, hcomponent, h⟩ := Option.bind_eq_some_iff.mp h
    obtain ⟨found, hfound, h⟩ := Option.bind_eq_some_iff.mp h
    obtain ⟨e, he, h⟩ := Option.bind_eq_some_iff.mp h
    obtain rfl : e = element := by simpa using h
    cases hc : d.erasure.component? with
    | none =>
      rw [Erasure.component?, show d.erasure.isArray = true from harray] at hc
      simp at hc
    | some k =>
      obtain ⟨a, ha⟩ : ∃ a, found.or d.erasure.component? = some a := by
        cases found <;> simp [hc]
      rw [ha] at he
      obtain rfl := Option.some.inj he
      exact ⟨rfl, found, .intro limit hfound, .inl ⟨harray, .intro limit hcomponent, hc ▸ ha⟩⟩
  · rename_i harray
    split at h
    · rename_i hcollection
      obtain ⟨view, hview, h⟩ := Option.bind_eq_some_iff.mp h
      obtain ⟨argument, hargument, h⟩ := Option.bind_eq_some_iff.mp h
      obtain ⟨e, he, h⟩ := Option.bind_eq_some_iff.mp h
      obtain rfl : e = element := by simpa using h
      obtain ⟨args, hargs, hargument⟩ := Option.bind_eq_some_iff.mp hargument
      obtain rfl : args.head?.join = argument := Option.some.inj hargument
      obtain ⟨found, hfound, rfl⟩ := exists_resolveOption_of_make he
      exact ⟨rfl, found, .intro limit hfound, .inr ⟨by simpa using harray, hcollection, rfl, view,
        args, .intro limit hview, .intro limit hargs, rfl⟩⟩
    · simp at h

/-- Whether there are elements is found wherever walks come to an end. -/
theorem element?_total {d : TypeDescriptor} (h : d.registry.Acyclic) :
    Total fun limit => d.element? limit := by
  have hcomponent : Total fun limit => componentNode limit d.registry d.node := by
    cases d.node with
    | none => exact .const _
    | some n => exact ⟨Node.componentType_steady _ n, Node.exists_componentIs h.bounds n⟩
  have hmake : ∀ node erasure, Total fun limit => make limit d.registry node erasure d.annotations := by
    intro node erasure
    cases erasure with
    | some e => exact .const _
    | none => exact (Node.resolveOption_total h node).bind fun _ => .const _
  have hview : Total fun limit =>
      Node.asClass d.registry limit d.node d.registry.wellKnown.collection :=
    ⟨Node.asErasure_steady _ d.node _, Node.exists_viewIs h.bounds h.inheritance d.node _⟩
  simp only [element?]
  refine Total.ite ?_ (Total.ite ?_ (.const _))
  · refine hcomponent.bind fun component => ?_
    refine (Node.resolveOption_total h component).bind fun found => ?_
    exact (hmake component _).bind fun _ => .const _
  · refine hview.bind fun view => ?_
    refine Total.bind ((Node.genericsOption_total h view).bind fun _ => .const _) fun argument => ?_
    exact (hmake argument none).bind fun _ => .const _

/-- The top class has no elements. -/
theorem not_hasElement_of_object (hbase : r.ExtendsBase) {d element : TypeDescriptor}
    (hd : d.registry = r) (hobject : d.erasure = r.object) : ¬d.HasElement element := by
  subst hd
  intro h
  obtain ⟨-, found, -, ⟨harray, -⟩ | ⟨-, hcollection, -⟩⟩ := h.cases
  · simp [isArray, hobject, object] at harray
  · have hinterfaces : d.registry.genericInterfaces d.registry.object = [] := by
      rw [object, hbase.wellKnown, hbase.genericInterfaces_eq (ExtendsBase.isBase_of_isSome rfl)]
      rfl
    rw [isCollection, hobject] at hcollection
    have heq := congrArg Erasure.element (eq_object_of_isSubclass hinterfaces rfl hcollection)
    rw [object, hbase.wellKnown] at heq
    exact absurd heq (by decide)

/-- Without a node, the elements have none either. -/
theorem HasElement.node_eq_none {d element : TypeDescriptor} (h : d.HasElement element)
    (hnode : d.node = none) : element.node = none := by
  obtain ⟨-, found, -, hcases⟩ := h.cases
  rw [hnode] at hcases
  rcases hcases with ⟨-, hcomponent, -⟩ | ⟨-, -, -, view, args, hview, hargs, helement⟩
  · exact (Option.some.inj (finds_const_iff.mp hcomponent)).symm
  · obtain rfl := (Node.viewIs_none_iff ..).mp hview
    obtain rfl : [] = args := Option.some.inj (finds_const_iff.mp hargs)
    exact helement

/-- Without a node, elements come to an end with the dimensions of the erasure. -/
theorem acc_of_node_eq_none (hbase : r.ExtendsBase) {d : TypeDescriptor} (hd : d.registry = r)
    (hnode : d.node = none) : Acc (fun element d => HasElement d element) d := by
  induction hk : d.erasure.dims.toNat using Nat.strong_induction_on generalizing d with
  | _ k ih =>
  subst hk
  refine Acc.intro d fun element h => ?_
  have helement := h.node_eq_none hnode
  obtain ⟨hregistry, found, hfound, hcases⟩ := h.cases
  rw [helement] at hfound
  obtain rfl : none = found := Option.some.inj (finds_const_iff.mp hfound)
  rcases hcases with ⟨-, -, herasure⟩ | ⟨-, -, herasure, -⟩
  · have hdims := Erasure.toNat_dims_of_component? herasure
    exact ih _ (by omega) (hregistry.trans hd) helement rfl
  · rw [hd] at herasure
    exact Acc.intro element fun e he =>
      absurd he (not_hasElement_of_object hbase (hregistry.trans hd) herasure)

section

variable (hbase : r.ExtendsBase) (hvars : r.KeepsVariables) (hr : r.Acyclic)
  (hnew : r.NoNewCollections)

include hbase hvars hr hnew

/-- The elements of a node that comes below a size come below a smaller one. -/
theorem HasElement.comesBelow {d element : TypeDescriptor} (h : d.HasElement element)
    (hd : d.registry = r) {n m : Node} {k : Nat} (hnode : d.node = some n)
    (hn : Node.ComesBelow r k n) (hm : element.node = some m) :
    ∃ j < k, Node.ComesBelow r j m := by
  subst hd
  obtain ⟨-, found, -, hcases⟩ := h.cases
  rw [hnode, hm] at hcases
  rcases hcases with ⟨-, hcomponent, -⟩ | ⟨-, -, -, view, args, hview, hargs, hhead⟩
  · obtain ⟨j, hj, hsmall⟩ := hn.small_of_componentIs hcomponent
    exact ⟨j, hj, hsmall.comesBelow⟩
  · cases args with
    | nil => simp at hhead
    | cons a rest =>
      obtain rfl : some m = a := by simpa using hhead
      cases view with
      | none => simp [Node.genericsOption, finds_const_iff] at hargs
      | some view =>
        exact hn.argument hbase hvars hr hnew hview hargs List.mem_cons_self

theorem acc_of_comesBelow {d : TypeDescriptor} (hd : d.registry = r) {n : Node} {k : Nat}
    (hnode : d.node = some n) (hn : Node.ComesBelow r k n) :
    Acc (fun element d => HasElement d element) d := by
  induction k using Nat.strong_induction_on generalizing d n with
  | _ k ih =>
  refine Acc.intro d fun element h => ?_
  have hregistry := h.cases.1.trans hd
  cases hm : element.node with
  | none => exact acc_of_node_eq_none hbase hregistry hm
  | some m =>
    obtain ⟨j, hj, hbelow⟩ := h.comesBelow hbase hvars hr hnew hd hnode hn hm
    exact ih j hj hregistry hm hbelow

/-- The elements of a type without variables, the elements of these and so on come to an end. -/
theorem acc_hasElement {d : TypeDescriptor} (hd : d.registry = r) {n : Node}
    (hnode : d.node = some n) (hn : n.typeVars = []) :
    Acc (fun element d => HasElement d element) d :=
  acc_of_comesBelow hbase hvars hr hnew hd hnode
    (Node.Small.comesBelow ⟨hn, Nat.lt_succ_self n.size⟩)

end

end TypeDescriptor

end TypeConversion
