import TypeConversion.Proofs.Assignable.Written
import TypeConversion.Proofs.Registry.Subclass

/-!
# Views and subclassing

A view is sought depth first among nodes, the interfaces before the superclass; subclassing is
decided breadth first on erasures.  Where every declared supertype names a class, the node of a
supertype resolves to that class in every context, so a view is found exactly of what is above the
erasure of the node.

Subclassing is the same relation but for two of its rules: the top class is above everything that is
no primitive, though no declaration leads from an interface to it, and a primitive is below nothing,
though it may declare interfaces.

**Results**

* `exists_viewIs_of_named`: the search for a view ends, with what is above;
* `isBelow_iff_isSubclass`: what is above a class, and what it is a subclass of;
* `viewIs_iff_isSubclass`: the same for views;
* `declaringPrimitive_view`: a view of what subclassing does not relate to the node.
-/

namespace TypeConversion

namespace Registry

variable {r : Registry}

/-! ## Supertypes that name classes -/

/-- Whether an erasure is a class in the narrow sense, or an enum. -/
def isConcrete (r : Registry) (e : Erasure) : Bool := r.hasKind .plain e || r.isEnum e

/--
Supertypes name classes, with arguments or without.  Superclasses are classes, the top class for a
class that declares none included; interfaces are interfaces.
-/
structure NamedInheritance (r : Registry) : Prop where
  superclasses : ∀ c t, r.genericSuperclass (.ofClass c) = some t →
    ∃ s, t.head? = some (.ofClass s) ∧ r.isConcrete (.ofClass s) = true
  interfaces : ∀ c, ∀ t ∈ r.genericInterfaces (.ofClass c),
    ∃ i, t.head? = some (.ofClass i) ∧ r.isInterface (.ofClass i) = true

/-- Whether a type expression names a class of some kind. -/
def namesClass (t : TypeExpr) (kind : Erasure → Bool) : Bool :=
  t.head?.any fun e => !e.isArray && kind e

/-- Whether all supertypes name classes of the kinds that they should be. -/
def hasNamedInheritance (r : Registry) : Bool :=
  r.numbered.all fun (c, _) =>
    (r.genericSuperclass (.ofClass c)).all (namesClass · r.isConcrete) &&
      (r.genericInterfaces (.ofClass c)).all (namesClass · r.isInterface)

theorem exists_of_namesClass {t : TypeExpr} {kind : Erasure → Bool}
    (h : namesClass t kind = true) :
    ∃ c, t.head? = some (.ofClass c) ∧ kind (.ofClass c) = true := by
  cases he : t.head? with
  | none => simp [namesClass, he] at h
  | some e =>
    obtain ⟨harray, hkind⟩ : e.isArray = false ∧ kind e = true := by simpa [namesClass, he] using h
    rcases exists_eq_ofClass harray with ⟨c, rfl⟩
    exact ⟨c, rfl, hkind⟩

theorem namedInheritance_of_check (h : r.hasNamedInheritance = true) : r.NamedInheritance := by
  have hclass : ∀ c t, r.IsSupertype (.ofClass c) t →
      ((r.genericSuperclass (.ofClass c)).all (namesClass · r.isConcrete) = true ∧
        (r.genericInterfaces (.ofClass c)).all (namesClass · r.isInterface) = true) := by
    intro c t ht
    rcases exists_class?_of_isSupertype ht with ⟨d, hd⟩
    exact Bool.and_eq_true_iff.mp (List.all_eq_true.mp h (c, d) (mem_numbered hd))
  constructor
  · intro c t ht
    have hsuper := (hclass c t (.inl ht)).1
    rw [ht] at hsuper
    exact exists_of_namesClass hsuper
  · intro c t ht
    exact exists_of_namesClass (List.all_eq_true.mp (hclass c t (.inr ht)).2 t ht)

/-- Supertypes name classes, those of arrays included. -/
theorem NamedInheritance.exists_head? (h : r.NamedInheritance) {e : Erasure} {t : TypeExpr}
    (ht : r.IsSupertype e t) : ∃ c, t.head? = some (.ofClass c) := by
  cases harray : e.isArray with
  | true =>
    rcases exists_of_isSupertype_of_isArray harray ht with ⟨c, -, rfl⟩
    exact ⟨c, rfl⟩
  | false =>
    rcases exists_eq_ofClass harray with ⟨c, rfl⟩
    rcases ht with ht | ht
    · rcases h.superclasses c t ht with ⟨s, hs, -⟩
      exact ⟨s, hs⟩
    · rcases h.interfaces c t ht with ⟨i, hi, -⟩
      exact ⟨i, hi⟩

theorem hasParent_of_head? {e p : Erasure} {t : TypeExpr} (ht : r.IsSupertype e t)
    (hp : t.head? = some p) : r.HasParent e p := by
  have hraw := rawErasure_of_head? r hp
  refine (mem_supertypes_iff ..).mpr (ht.imp (fun ht => ?_) fun ht => ?_)
  · rw [superclass?, ht]
    exact hraw
  · exact List.mem_filterMap.mpr ⟨t, ht, hraw⟩

/-- The parents of an erasure are what its supertypes name. -/
theorem NamedInheritance.hasParent_iff (h : r.NamedInheritance) {e p : Erasure} :
    r.HasParent e p ↔ ∃ t, r.IsSupertype e t ∧ t.head? = some p := by
  constructor
  · intro hp
    rcases exists_isSupertype_of_mem hp with ⟨t, ht, hraw⟩
    rcases h.exists_head? ht with ⟨c, hc⟩
    rw [rawErasure_of_head? r hc] at hraw
    exact ⟨t, ht, hraw ▸ hc⟩
  · rintro ⟨t, ht, hp⟩
    exact hasParent_of_head? ht hp

/-! ## What is above a class -/

section Kinds

variable {e a : Erasure}

theorem isInterface_of_isConcrete (h : r.isConcrete e = true) : r.isInterface e = false := by
  rw [← Bool.not_eq_true]
  intro hi
  rcases Bool.or_eq_true_iff.mp h with h | h
  · exact absurd (kind_unique hi h) (by decide)
  · exact absurd (kind_unique hi h) (by decide)

theorem isPrimitive_of_isConcrete (h : r.isConcrete e = true) : r.isPrimitive e = false := by
  rw [← Bool.not_eq_true]
  intro hp
  rcases Bool.or_eq_true_iff.mp h with h | h
  · exact absurd (kind_unique hp h) (by decide)
  · exact absurd (kind_unique hp h) (by decide)

/-- A declared class is a class in the narrow sense unless it is an interface or a primitive. -/
theorem isConcrete_of_isSome {c : ClassId} (hdeclared : (r.class? c).isSome = true)
    (hi : r.isInterface (.ofClass c) = false) (hp : r.isPrimitive (.ofClass c) = false) :
    r.isConcrete (.ofClass c) = true := by
  rcases Option.isSome_iff_exists.mp hdeclared with ⟨d, hd⟩
  simp only [isConcrete, isEnum, isInterface, isPrimitive, hasKind, Erasure.isArray_ofClass,
    Erasure.ofClass_element, hd, Option.any_some, Bool.not_false, Bool.true_and] at hi hp ⊢
  cases hkind : d.kind <;> simp_all

theorem isSome_of_isConcrete {c : ClassId} (h : r.isConcrete (.ofClass c) = true) :
    (r.class? c).isSome = true := by
  cases hd : r.class? c with
  | some d => rfl
  | none => simp [isConcrete, isEnum, hasKind, hd] at h

end Kinds

namespace NamedInheritance

variable {c : ClassId} {e a : Erasure}

/-- Parents of classes are no primitives. -/
theorem isPrimitive_of_hasParent (h : r.NamedInheritance) (hp : r.HasParent (.ofClass c) a) :
    a.isArray = false ∧ r.isPrimitive a = false := by
  rcases h.hasParent_iff.mp hp with ⟨t, ht | ht, ha⟩
  · rcases h.superclasses c t ht with ⟨s, hs, hkind⟩
    obtain rfl := Option.some.inj (ha.symm.trans hs)
    exact ⟨rfl, isPrimitive_of_isConcrete hkind⟩
  · rcases h.interfaces c t ht with ⟨i, hi, hkind⟩
    obtain rfl := Option.some.inj (ha.symm.trans hi)
    exact ⟨rfl, isPrimitive_of_isInterface hkind⟩

/-- What is above a class that is no primitive is no primitive. -/
theorem isPrimitive_of_isBelow (h : r.NamedInheritance) (he : e.isArray = false)
    (hprimitive : r.isPrimitive e = false) (ha : r.IsBelow e a) :
    a.isArray = false ∧ r.isPrimitive a = false := by
  induction ha with
  | refl => exact ⟨he, hprimitive⟩
  | tail _ hstep ih =>
    rcases exists_eq_ofClass ih.1 with ⟨c, rfl⟩
    exact h.isPrimitive_of_hasParent hstep

/-- Above an interface there are only interfaces. -/
theorem isInterface_of_isBelow (h : r.NamedInheritance) (he : r.isInterface e = true)
    (ha : r.IsBelow e a) : r.isInterface a = true := by
  induction ha with
  | refl => exact he
  | @tail b p _ hstep hb =>
    rcases exists_eq_ofClass (isArray_of_hasKind hb) with ⟨c, rfl⟩
    rcases h.hasParent_iff.mp hstep with ⟨t, ht | ht, hp⟩
    · rcases exists_class?_of_isSupertype (.inl ht) with ⟨d, hd⟩
      have hkind : d.kind = .interface := by simpa [isInterface, hasKind, hd] using hb
      simp [genericSuperclass, hd, hkind] at ht
    · rcases h.interfaces c t ht with ⟨i, hi, hkind⟩
      rwa [Option.some.inj (hp.symm.trans hi)]

/-- The chain of superclasses of a class leads to the top class. -/
theorem isBelow_object (h : r.NamedInheritance) (hi : r.AcyclicInheritance)
    (he : r.isConcrete (.ofClass c) = true) : r.IsBelow (.ofClass c) r.object := by
  induction hc : Erasure.ofClass c using hi.wellFounded.induction generalizing c with
  | _ e ih =>
  subst hc
  by_cases hobject : c = r.wellKnown.object
  · rw [hobject]
    exact .refl
  · rcases Option.isSome_iff_exists.mp (isSome_of_isConcrete he) with ⟨d, hd⟩
    have hinterface : d.kind ≠ .interface := by
      have hkind := isInterface_of_isConcrete he
      simpa [isInterface, hasKind, hd] using hkind
    have hprimitive : d.kind ≠ .primitive := by
      have hkind := isPrimitive_of_isConcrete he
      simpa [isPrimitive, hasKind, hd] using hkind
    obtain ⟨t, ht⟩ : ∃ t, r.genericSuperclass (.ofClass c) = some t := by
      simp [genericSuperclass, hd, hinterface, hprimitive, hobject]
    rcases h.superclasses c t ht with ⟨s, hs, hkind⟩
    exact .head (hasParent_of_head? (.inl ht) hs)
      (ih _ ⟨t, .inl ht, standsFor_of_head? r hs⟩ hkind rfl)

end NamedInheritance

/-- Primitives are subclasses of themselves only. -/
theorem isSubclass_primitive_iff {e : Erasure} (hprimitive : r.isPrimitive e = true)
    (c : ClassId) : r.isSubclass (.ofClass c) e = true ↔ e = .ofClass c := by
  rw [isSubclass_iff_of_classes rfl (isArray_of_hasKind hprimitive), hprimitive]
  simp only [Bool.true_eq_false, false_and, and_false, or_false]
  exact eq_comm

section Base

variable (hbase : r.ExtendsBase)

include hbase

/-- The three classes above arrays have nothing above them. -/
theorem supertypes_aboveArrays {c : ClassId}
    (hc : c ∈ [r.wellKnown.object, r.wellKnown.cloneable, r.wellKnown.serializable]) :
    r.supertypes (.ofClass c) = [] := by
  have hbootstrap : ∀ c ∈ [Bootstrap.wellKnown.object, Bootstrap.wellKnown.cloneable,
      Bootstrap.wellKnown.serializable], (bootstrap.class? c).isSome = true ∧
        bootstrap.supertypes (.ofClass c) = [] := by
    decide
  rw [hbase.wellKnown] at hc
  rcases hbootstrap c hc with ⟨hdeclared, hnone⟩
  exact (hbase.supertypes_eq (ExtendsBase.isBase_of_isSome hdeclared)).1.trans hnone

/-- Above an array there are three classes. -/
theorem isBelow_iff_of_array {e : Erasure} (he : e.isArray = true) (c : ClassId) :
    r.IsBelow e (.ofClass c) ↔
      c ∈ [r.wellKnown.object, r.wellKnown.cloneable, r.wellKnown.serializable] := by
  have hparents : ∀ p, r.HasParent e p ↔ ∃ c ∈ [r.wellKnown.object, r.wellKnown.cloneable,
      r.wellKnown.serializable], p = .ofClass c := by
    intro p
    simp [HasParent, supertypes, superclass?, genericSuperclass, interfaces, genericInterfaces, he,
      rawErasure_of_head?, TypeExpr.head?, TypeExpr.ofClass]
  constructor
  · intro h
    rcases Relation.ReflTransGen.cases_head h with heq | ⟨p, hp, hrest⟩
    · simp [heq] at he
    · rcases (hparents p).mp hp with ⟨b, hb, rfl⟩
      rcases Relation.ReflTransGen.cases_head hrest with heq | ⟨q, hq, -⟩
      · rwa [← show b = c from congrArg Erasure.element heq]
      · rw [HasParent, supertypes_aboveArrays hbase hb] at hq
        simp at hq
  · exact fun h => .single ((hparents _).mpr ⟨c, h, rfl⟩)

/-- What is no primitive is a subclass of what is above it. -/
theorem isSubclass_of_isBelow (h : r.NamedInheritance) {e : Erasure}
    (hprimitive : r.isPrimitive e = false) {c : ClassId} (hbelow : r.IsBelow e (.ofClass c)) :
    r.isSubclass (.ofClass c) e = true := by
  cases harray : e.isArray with
  | true =>
    rw [isBelow_iff_of_array hbase harray] at hbelow
    rw [isSubclass_iff_of_array rfl harray]
    simpa [object, Erasure.ofClass] using hbelow
  | false =>
    have htarget := h.isPrimitive_of_isBelow harray hprimitive hbelow
    rw [isSubclass_iff_of_classes rfl harray]
    exact .inr ⟨htarget.2, hprimitive, .inr hbelow⟩

/-- What is above a declared class, and what it is a subclass of, if it is no primitive. -/
theorem isBelow_iff_isSubclass (hi : r.AcyclicInheritance) (h : r.NamedInheritance) {e : Erasure}
    (hdeclared : (r.class? e.element).isSome = true) (hprimitive : r.isPrimitive e = false)
    {c : ClassId} (hobject : .ofClass c = r.object → r.isInterface e = false) :
    r.IsBelow e (.ofClass c) ↔ r.isSubclass (.ofClass c) e = true := by
  refine ⟨isSubclass_of_isBelow hbase h hprimitive, fun hsubclass => ?_⟩
  cases harray : e.isArray with
  | true =>
    rw [isSubclass_iff_of_array rfl harray] at hsubclass
    rw [isBelow_iff_of_array hbase harray]
    simpa [object, Erasure.ofClass] using hsubclass
  | false =>
    rcases exists_eq_ofClass harray with ⟨b, rfl⟩
    rcases (isSubclass_iff_of_classes rfl rfl).mp hsubclass with heq | ⟨-, -, heq | hbelow⟩
    · rw [heq]
      exact .refl
    · rw [heq]
      exact h.isBelow_object hi (isConcrete_of_isSome hdeclared (hobject heq) hprimitive)
    · exact hbelow

/-- A primitive is not assignable to an interface that it declares, nor to those above. -/
theorem isAssignable_of_isBelow_primitive (h : r.NamedInheritance) {e : Erasure}
    (hprimitive : r.isPrimitive e = true) {c : ClassId} (hbelow : r.IsBelow e (.ofClass c))
    (hne : e ≠ .ofClass c) : r.isAssignable (.ofClass c) e = false := by
  have harray : e.isArray = false := isArray_of_hasKind hprimitive
  rcases exists_eq_ofClass harray with ⟨b, rfl⟩
  rcases Relation.ReflTransGen.cases_head hbelow with heq | ⟨p, hp, hrest⟩
  · exact absurd heq hne
  have hparent := h.isPrimitive_of_hasParent hp
  have htarget := h.isPrimitive_of_isBelow hparent.1 hparent.2 hrest
  have hsubclass : r.isSubclass (.ofClass c) (.ofClass b) = false := by
    rw [← Bool.not_eq_true, isSubclass_primitive_iff hprimitive]
    exact hne
  have hbox : r.boxed (.ofClass b) = .ofClass b := by
    rcases exists_eq_ofClass (isArray_boxed r harray) with ⟨box, hbox⟩
    rcases ExtendsBase.eq_or_mem_boxes_of_boxed hbox with heq | ⟨p', heq, hmem⟩
    · rw [hbox, heq]
    · -- what has a box declares nothing
      rw [heq, HasParent, hbase.supertypes_of_mem_boxes hmem] at hp
      simp at hp
  rw [isAssignable, hbox, hsubclass, htarget.2, hprimitive]
  rfl

/-- No declaration leads from an interface to the top class. -/
theorem not_isBelow_object (h : r.NamedInheritance) {e : Erasure}
    (he : r.isInterface e = true) : ¬r.IsBelow e r.object := by
  intro hbelow
  have hobject : r.isInterface r.object = false := by
    rw [object, hbase.wellKnown, isInterface,
      hbase.hasKind_eq .interface (ExtendsBase.isBase_of_isSome (by decide))]
    decide
  exact Bool.false_ne_true (hobject.symm.trans (h.isInterface_of_isBelow he hbelow))

end Base

end Registry

namespace Node

open Walk Registry

variable {r : Registry}

/-! ## Views of what is above -/

/-- The search for a view ends; it finds one exactly if a condition holds, and it is right. -/
def ViewDecides (r : Registry) (n : Option Node) (target : Erasure) (p : Prop) : Prop :=
  ∃ view, ViewIs r n target view ∧ (view.isSome = true ↔ p) ∧
    ∀ v ∈ view, ResolvesTo r v (some target)

/-- A node that has another erasure is viewed through its interfaces, and then its superclass. -/
theorem viewIs_iff_of_ne {n : Node} {e target : Erasure} (he : ResolvesTo r n (some e))
    (hne : e ≠ target) (view : Option Node) :
    ViewIs r (some n) target view ↔
      ∃ first, FirstViewIs r (interfaceNodes r n e) target first ∧
        match first with
        | some found => view = some found
        | none => ViewIs r (superNode? r n e) target view := by
  rw [viewIs_some_iff]
  constructor
  · rintro ⟨e', he', h⟩
    obtain rfl := he.unique (resolve_steady r n) he'
    simp only [hne, if_false] at h
    exact h
  · intro h
    refine ⟨some e, he, ?_⟩
    simp only [hne, if_false]
    exact h

/-- The first view among nodes is there if one of them has a view. -/
theorem exists_firstViewIs_iff {ns : List Node} {target : Erasure} {p : Node → Prop}
    (h : ∀ n ∈ ns, ViewDecides r (some n) target (p n)) :
    ∃ view, FirstViewIs r ns target view ∧ (view.isSome = true ↔ ∃ n ∈ ns, p n) ∧
      ∀ v ∈ view, ResolvesTo r v (some target) := by
  induction ns with
  | nil => exact ⟨none, (firstViewIs_nil_iff ..).mpr rfl, by simp, by simp⟩
  | cons n rest ih =>
    rcases h n List.mem_cons_self with ⟨first, hfirst, hsome, hright⟩
    cases first with
    | some found =>
      refine ⟨some found, (firstViewIs_cons_iff ..).mpr ⟨some found, hfirst, rfl⟩, ?_, hright⟩
      simp [← hsome]
    | none =>
      rcases ih fun m hm => h m (List.mem_cons_of_mem _ hm) with ⟨view, hview, hsome', hright'⟩
      refine ⟨view, (firstViewIs_cons_iff ..).mpr ⟨none, hfirst, hview⟩, ?_, hright'⟩
      simp [hsome', ← hsome]

/-- A node that names something below a target. -/
def LeadsTo (r : Registry) (target : Erasure) (m : Node) : Prop :=
  ∃ p, m.expr.head? = some p ∧ r.IsBelow p target

/-- What is above an erasure is what the nodes of its supertypes lead to. -/
theorem isBelow_iff_leadsTo (h : r.NamedInheritance) (n : Node) {e target : Erasure}
    (hne : e ≠ target) :
    r.IsBelow e target ↔ (∃ m ∈ interfaceNodes r n e, LeadsTo r target m) ∨
      ∃ m ∈ superNode? r n e, LeadsTo r target m := by
  rw [IsBelow, Relation.ReflTransGen.cases_head_iff]
  simp only [hne, false_or, h.hasParent_iff, interfaceNodes, superNode?, List.mem_map,
    Option.mem_def, Option.map_eq_some_iff, exists_exists_and_eq_and, LeadsTo, within,
    expr_written]
  constructor
  · rintro ⟨p, ⟨t, ht | ht, hp⟩, hrest⟩
    · exact .inr ⟨t, ht, p, hp, hrest⟩
    · exact .inl ⟨t, ht, p, hp, hrest⟩
  · rintro (⟨t, ht, p, hp, hrest⟩ | ⟨t, ht, p, hp, hrest⟩)
    · exact ⟨p, ⟨t, .inr ht, hp⟩, hrest⟩
    · exact ⟨p, ⟨t, .inl ht, hp⟩, hrest⟩

/-- The search for a view of a node with an erasure ends, and finds what is above the erasure. -/
theorem exists_viewIs_of_named (hi : r.AcyclicInheritance) (h : r.NamedInheritance) {n : Node}
    {e : Erasure} (he : ResolvesTo r n (some e)) (target : Erasure) :
    ViewDecides r (some n) target (r.IsBelow e target) := by
  induction e using hi.wellFounded.induction generalizing n with
  | _ e ih =>
  by_cases heq : e = target
  · subst heq
    refine ⟨some n, (viewIs_some_iff ..).mpr ⟨some e, he, by simp⟩, ?_, ?_⟩
    · simp [IsBelow, Relation.ReflTransGen.refl]
    · rintro _ ⟨⟩
      exact he
  -- the node of a supertype has the erasure that the supertype names, and that is inherited
  have hleads : ∀ {t}, r.IsSupertype e t →
      ViewDecides r (some (within (some n) t)) target (LeadsTo r target (within (some n) t)) := by
    intro t ht
    rcases h.exists_head? ht with ⟨c, hc⟩
    have hiff : LeadsTo r target (within (some n) t) ↔ r.IsBelow (.ofClass c) target := by
      simp [LeadsTo, within, hc]
    have hfound : ResolvesTo r (within (some n) t) (some (.ofClass c)) := resolvesTo_of_head? hc
    rw [hiff]
    exact ih _ (hfound.inherits ht) hfound
  have hfirst : ∀ m ∈ interfaceNodes r n e,
      ViewDecides r (some m) target (LeadsTo r target m) := by
    intro m hm
    rcases List.mem_map.mp hm with ⟨t, ht, rfl⟩
    exact hleads (.inr ht)
  have hsuper : ViewDecides r (superNode? r n e) target
      (∃ m ∈ superNode? r n e, LeadsTo r target m) := by
    cases ht : r.genericSuperclass e with
    | none =>
      exact ⟨none, by simp [superNode?, ht, viewIs_none_iff], by simp [superNode?, ht], by simp⟩
    | some t => simpa [superNode?, ht] using hleads (.inl ht)
  rw [isBelow_iff_leadsTo h n heq]
  rcases exists_firstViewIs_iff hfirst with ⟨first, hfirst, hsome, hright⟩
  cases first with
  | some found =>
    have hview := (viewIs_iff_of_ne he heq _).mpr ⟨some found, hfirst, rfl⟩
    exact ⟨some found, hview, by simp [← hsome], hright⟩
  | none =>
    rcases hsuper with ⟨view, hview, hsome', hright'⟩
    have hview := (viewIs_iff_of_ne he heq view).mpr ⟨none, hfirst, hview⟩
    exact ⟨view, hview, by simp [← hsome, hsome'], hright'⟩

/-- A view is the node itself, or the node of a declared supertype. -/
theorem eq_or_within_of_viewIs (hi : r.AcyclicInheritance) {n v : Node} {target : Erasure}
    (hview : ViewIs r (some n) target (some v)) :
    v = n ∨ ∃ e t m, r.IsSupertype e t ∧ v = within (some m) t :=
  view_induction hi (fun m => m = n ∨ ∃ e t k, r.IsSupertype e t ∧ m = within (some k) t)
    (fun m e t _ _ ht => .inr ⟨e, t, m, ht, rfl⟩) (.inl rfl) hview

/-- The view of a node as something else names it. -/
theorem head?_of_viewIs (hi : r.AcyclicInheritance) (h : r.NamedInheritance) {n v : Node}
    {e target : Erasure} (he : ResolvesTo r n (some e)) (hne : e ≠ target)
    (hview : ViewIs r (some n) target (some v)) : v.expr.head? = some target := by
  rcases exists_viewIs_of_named hi h he target with ⟨view, hview', -, hright⟩
  obtain rfl := hview.unique (asErasure_steady r (some n) target) hview'
  have hv : ResolvesTo r v (some target) := hright v rfl
  rcases eq_or_within_of_viewIs hi hview with rfl | ⟨e', t, m, ht, rfl⟩
  · exact absurd (Option.some.inj (he.unique (resolve_steady r v) hv)) hne
  · rcases h.exists_head? ht with ⟨c, hc⟩
    have hnamed : ResolvesTo r (within (some m) t) (some (.ofClass c)) := resolvesTo_of_head? hc
    rw [within, expr_written, hc, hnamed.unique (resolve_steady r _) hv]

/--
The view of a node as a class, if the erasure of the node is declared.  The search ends.  It finds a
view exactly if the class is above the erasure, that is if the erasure is a subclass of it, except
that interfaces are not viewed as the top class, and that primitives are subclasses of nothing but
may be viewed as the interfaces they declare.  The view resolves to the class.
-/
theorem viewIs_iff_isSubclass (hbase : r.ExtendsBase) (hi : r.AcyclicInheritance)
    (h : r.NamedInheritance) {n : Node} {e : Erasure} (he : ResolvesTo r n (some e))
    (hdeclared : (r.class? e.element).isSome = true) (c : ClassId) :
    ∃ view, ViewIs r (some n) (.ofClass c) view ∧
      (view.isSome = true ↔ r.IsBelow e (.ofClass c)) ∧
      (r.isPrimitive e = false → ¬(.ofClass c = r.object ∧ r.isInterface e = true) →
        (view.isSome = true ↔ r.isSubclass (.ofClass c) e = true)) ∧
      (.ofClass c = r.object → r.isInterface e = true → view = none) ∧
      (r.isPrimitive e = true → (r.isSubclass (.ofClass c) e = true ↔ e = .ofClass c)) ∧
      ∀ v ∈ view, ResolvesTo r v (some (.ofClass c)) := by
  rcases exists_viewIs_of_named hi h he (.ofClass c) with ⟨view, hview, hsome, hright⟩
  refine ⟨view, hview, hsome, fun hprimitive hexcept => ?_, fun hobject hinterface => ?_,
    fun hprimitive => isSubclass_primitive_iff hprimitive c, hright⟩
  · rw [hsome]
    exact isBelow_iff_isSubclass hbase hi h hdeclared hprimitive fun hobject => by
      simpa [hobject] using hexcept
  · rw [hobject] at hsome
    simpa using mt hsome.mp (not_isBelow_object hbase h hinterface)

/-- Array lists are viewed as the collections that they are. -/
theorem viewIs_iff_isSubclass_arrayList :
    ∃ v, ViewIs bootstrap (some (.ofClass Bootstrap.wellKnown.arrayList))
        (.ofClass Bootstrap.wellKnown.collection) (some v) ∧
      ResolvesTo bootstrap v (some (.ofClass Bootstrap.wellKnown.collection)) := by
  have hnode : ResolvesTo bootstrap (.ofClass Bootstrap.wellKnown.arrayList)
      (some (.ofClass Bootstrap.wellKnown.arrayList)) := resolvesTo_of_head? rfl
  rcases viewIs_iff_isSubclass extendsBase_bootstrap
    (acyclicInheritance_of_supertypesFirst bootstrap_supertypesFirst)
    (namedInheritance_of_check (by decide +kernel)) hnode (by decide +kernel)
    Bootstrap.wellKnown.collection with ⟨view, hview, -, hiff, -, -, hright⟩
  have hsome : view.isSome = true :=
    (hiff (by decide +kernel) (by decide +kernel)).mpr (by decide +kernel)
  rcases Option.isSome_iff_exists.mp hsome with ⟨v, rfl⟩
  exact ⟨v, hview, hright v rfl⟩

/-- A class `P` of primitive kind that declares an interface `I`. -/
def declaringPrimitive : Registry :=
  (bootstrap.push { name := "I", kind := .interface }).push
    { name := "P", kind := .primitive, interfaces := [.ofClass ⟨37⟩] }

/-- A view of what subclassing does not relate to the node. -/
theorem declaringPrimitive_view :
    declaringPrimitive.ExtendsBase ∧ declaringPrimitive.AcyclicInheritance ∧
      declaringPrimitive.NamedInheritance ∧
      ResolvesTo declaringPrimitive (.ofClass ⟨38⟩) (some (.ofClass ⟨38⟩)) ∧
      (declaringPrimitive.class? ⟨38⟩).isSome = true ∧
      (∃ v, ViewIs declaringPrimitive (some (.ofClass ⟨38⟩)) (.ofClass ⟨37⟩) (some v)) ∧
      declaringPrimitive.isSubclass (.ofClass ⟨37⟩) (.ofClass ⟨38⟩) = false := by
  have hview : ∃ v, ViewIs declaringPrimitive (some (.ofClass ⟨38⟩)) (.ofClass ⟨37⟩) (some v) :=
    ⟨_, 4, rfl⟩
  exact ⟨(extendsBase_bootstrap.push _).push _,
    acyclicInheritance_of_supertypesFirst (by decide +kernel),
    namedInheritance_of_check (by decide +kernel), resolvesTo_of_head? rfl, by decide +kernel,
    hview, by decide +kernel⟩

end Node

end TypeConversion
