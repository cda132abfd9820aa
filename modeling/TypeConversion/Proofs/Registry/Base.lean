import TypeConversion.Proofs.Registry.Ordered

/-!
# Registries that extend the bootstrap registry

A registry that keeps all bootstrap classes answers questions about them as the bootstrap registry
does: their supertypes are the same, a search that starts from them goes the same way, and what it
reaches there within a few steps it reaches here.

**Results**

* `ExtendsBase.reaches_eq`: searches from bootstrap classes go the same way;
* `ExtendsBase.isSubclass_collections`: the classes that collections are built as are subclasses of
  the interfaces they are built for;
* `ExtendsBase.isAssignable_of_boxed`: a type may hold what it is boxed as.
-/

namespace TypeConversion

namespace Registry

/-- A registry that keeps the bootstrap classes and their numbers. -/
structure ExtendsBase (r : Registry) : Prop where
  wellKnown : r.wellKnown = Bootstrap.wellKnown
  classes : ∀ c d, bootstrap.class? c = some d → r.class? c = some d

/-! ## Supertypes -/

/-- Type expressions that name a class are erased to it. -/
theorem rawErasure_of_head? (r : Registry) {t : TypeExpr} {e : Erasure} (h : t.head? = some e) :
    r.rawErasure t = some e := by
  rw [rawErasure, erasureSteps]
  cases t with
  | plain a | parameterized raw args owner => simpa [TypeExpr.head?, rawErasureWithin] using h
  | genericArray _ | wildcard _ _ | typeVar _ => simp [TypeExpr.head?] at h

/-- An erasure that is a bootstrap class. -/
def IsBase (e : Erasure) : Prop := ∃ c d, e = .ofClass c ∧ bootstrap.class? c = some d

/-- The supertypes of bootstrap classes name bootstrap classes. -/
theorem exists_head?_of_isSupertype {c : ClassId} {t : TypeExpr}
    (h : bootstrap.IsSupertype (.ofClass c) t) : ∃ e, t.head? = some e ∧ IsBase e := by
  rcases exists_class?_of_isSupertype h with ⟨d, hd⟩
  have hall := List.all_eq_true.mp bootstrap_supertypesFirst (c, d) (mem_numbered hd)
  have ht := List.all_eq_true.mp hall t ((isSupertype_iff_mem ..).mp h)
  cases hhead : t.head? with
  | none => simp [hhead] at ht
  | some e =>
    obtain ⟨harray, hlt⟩ : e.isArray = false ∧ e.element.index < c.index := by
      simpa [hhead] using ht
    rcases exists_eq_ofClass harray with ⟨c', rfl⟩
    have hbound : c.index.toNat < bootstrap.classes.size := by
      rcases Array.getElem?_eq_some_iff.mp hd with ⟨h, -⟩
      exact h
    have hlt' : c'.index.toNat < bootstrap.classes.size :=
      (UInt32.lt_iff_toNat_lt.mp hlt).trans hbound
    exact ⟨_, rfl, c', _, rfl, Array.getElem?_eq_getElem hlt'⟩

namespace ExtendsBase

variable {r : Registry}

theorem genericSuperclass_eq (h : r.ExtendsBase) {e : Erasure} (he : IsBase e) :
    r.genericSuperclass e = bootstrap.genericSuperclass e := by
  rcases he with ⟨c, d, rfl, hd⟩
  have hobject : r.wellKnown = bootstrap.wellKnown := h.wellKnown
  rw [genericSuperclass, genericSuperclass, Erasure.ofClass_element, h.classes c d hd, hd, hobject]

theorem genericInterfaces_eq (h : r.ExtendsBase) {e : Erasure} (he : IsBase e) :
    r.genericInterfaces e = bootstrap.genericInterfaces e := by
  rcases he with ⟨c, d, rfl, hd⟩
  simp [genericInterfaces, h.classes c d hd, hd]

/-- What a supertype of a bootstrap class is erased to is a bootstrap class, here as there. -/
theorem exists_rawErasure (r : Registry) {e : Erasure} (he : IsBase e) {t : TypeExpr}
    (ht : bootstrap.IsSupertype e t) :
    ∃ s, r.rawErasure t = some s ∧ bootstrap.rawErasure t = some s ∧ IsBase s := by
  rcases he with ⟨c, d, rfl, hd⟩
  rcases exists_head?_of_isSupertype ht with ⟨s, hs, hbase⟩
  exact ⟨s, rawErasure_of_head? r hs, rawErasure_of_head? _ hs, hbase⟩

/-- Bootstrap classes keep their superclasses, which are bootstrap classes. -/
theorem superclass?_eq (h : r.ExtendsBase) {e : Erasure} (he : IsBase e) :
    r.superclass? e = bootstrap.superclass? e ∧ ∀ s ∈ r.superclass? e, IsBase s := by
  rw [superclass?, superclass?, h.genericSuperclass_eq he]
  cases ht : bootstrap.genericSuperclass e with
  | none => simp
  | some t =>
    rcases exists_rawErasure r he (.inl ht) with ⟨s, hs, hs', hbase⟩
    simpa [hs, hs'] using hbase

/-- Bootstrap classes keep their interfaces, which are bootstrap classes. -/
theorem interfaces_eq (h : r.ExtendsBase) {e : Erasure} (he : IsBase e) :
    r.interfaces e = bootstrap.interfaces e ∧ ∀ s ∈ r.interfaces e, IsBase s := by
  rw [interfaces, interfaces, h.genericInterfaces_eq he]
  constructor
  · refine List.filterMap_congr fun t ht => ?_
    rcases exists_rawErasure r he (.inr ht) with ⟨s, hs, hs', -⟩
    rw [hs, hs']
  · intro s hs
    rcases List.mem_filterMap.mp hs with ⟨t, ht, hs⟩
    rcases exists_rawErasure r he (.inr ht) with ⟨s', hs', -, hbase⟩
    obtain rfl : s = s' := Option.some.inj (hs.symm.trans hs')
    exact hbase

/-- Bootstrap classes keep their supertypes, which are bootstrap classes. -/
theorem supertypes_eq (h : r.ExtendsBase) {e : Erasure} (he : IsBase e) :
    r.supertypes e = bootstrap.supertypes e ∧ ∀ s ∈ r.supertypes e, IsBase s := by
  constructor
  · rw [supertypes, supertypes, (h.superclass?_eq he).1, (h.interfaces_eq he).1]
  · intro s hs
    rcases List.mem_append.mp hs with hs | hs
    · exact (h.superclass?_eq he).2 s (by simpa using hs)
    · exact (h.interfaces_eq he).2 s hs

/-- A search from bootstrap classes goes the way it does in the bootstrap registry. -/
theorem reaches_eq (h : r.ExtendsBase) (target : Erasure) (steps : Nat)
    (queue visited : List Erasure) (hqueue : ∀ e ∈ queue, IsBase e) :
    r.reaches target steps queue visited = bootstrap.reaches target steps queue visited := by
  induction steps generalizing queue visited with
  | zero => simp [reaches]
  | succ steps ih =>
    cases queue with
    | nil => simp [reaches]
    | cons e queue =>
      have hrest : ∀ e ∈ queue, IsBase e := fun e he => hqueue e (List.mem_cons_of_mem _ he)
      rcases h.supertypes_eq (hqueue e List.mem_cons_self) with ⟨heq, hbase⟩
      rw [reaches, reaches, ih queue visited hrest, ← heq]
      rw [ih (queue ++ r.supertypes e) (e :: visited)]
      intro s hs
      rcases List.mem_append.mp hs with hs | hs
      · exact hrest s hs
      · exact hbase s hs

end ExtendsBase

/-- What a search reaches it reaches with more steps as well. -/
theorem reaches_mono {r : Registry} {target : Erasure} {steps more : Nat} (hle : steps ≤ more)
    {queue visited : List Erasure} (h : r.reaches target steps queue visited = true) :
    r.reaches target more queue visited = true := by
  induction steps generalizing more queue visited with
  | zero => simp [reaches] at h
  | succ steps ih =>
    obtain ⟨more, rfl⟩ : ∃ k, more = k + 1 := ⟨more - 1, by omega⟩
    have hle : steps ≤ more := by omega
    cases queue with
    | nil => simp [reaches] at h
    | cons e queue =>
      rw [reaches] at h ⊢
      split
      · rename_i hvisited
        simp only [hvisited, if_true] at h
        exact ih hle h
      · rename_i hvisited
        simp only [hvisited, if_false, Bool.false_eq_true] at h
        split
        · rfl
        · rename_i htarget
          simp only [htarget, if_false] at h
          exact ih hle h

/-! ## Kinds -/

section Kinds

variable {r : Registry} {e : Erasure}

theorem isArray_of_hasKind {k : ClassKind} (h : r.hasKind k e = true) : e.isArray = false := by
  cases harray : e.isArray with
  | false => rfl
  | true => simp [hasKind, harray] at h

/-- Two kinds of one class are the same. -/
theorem kind_unique {k k' : ClassKind} (h : r.hasKind k e = true) (h' : r.hasKind k' e = true) :
    k = k' := by
  cases hd : r.class? e.element with
  | none => simp [hasKind, hd] at h
  | some d =>
    have hk : e.isArray = false ∧ d.kind = k := by simpa [hasKind, hd] using h
    have hk' : e.isArray = false ∧ d.kind = k' := by simpa [hasKind, hd] using h'
    exact hk.2.symm.trans hk'.2

theorem isPrimitive_of_isInterface (h : r.isInterface e = true) : r.isPrimitive e = false := by
  rw [← Bool.not_eq_true]
  exact fun hp => absurd (kind_unique hp h) (by decide)

end Kinds

/-! ## Subclasses -/

@[simp] theorem isSubclass_self (r : Registry) (e : Erasure) : r.isSubclass e e = true := by
  rw [isSubclass]
  cases e.dims.toNat <;> simp [isSubclassWithin]

@[simp] theorem isAssignable_self (r : Registry) (e : Erasure) : r.isAssignable e e = true := by
  simp [isAssignable]

theorem isSubclass_ofClass_of_isSubclassPlain {r : Registry} {c c' : ClassId}
    (h : r.isSubclassPlain (.ofClass c) (.ofClass c') = true) :
    r.isSubclass (.ofClass c) (.ofClass c') = true := by
  simp [isSubclass, isSubclassWithin, h]

theorem isAssignable_of_isSubclass {r : Registry} {target source : Erasure}
    (h : r.isSubclass target source = true) : r.isAssignable target source = true := by
  simp [isAssignable, h]

theorem isArray_boxed (r : Registry) {e : Erasure} (h : e.isArray = false) :
    (r.boxed e).isArray = false := by
  rw [boxed]
  split
  · rfl
  · exact h

namespace ExtendsBase

variable {r : Registry}

/-- Bootstrap classes keep their kinds. -/
theorem hasKind_eq (h : r.ExtendsBase) (kind : ClassKind) {e : Erasure} (he : IsBase e) :
    r.hasKind kind e = bootstrap.hasKind kind e := by
  rcases he with ⟨c, d, rfl, hd⟩
  simp [hasKind, h.classes c d hd, hd]

/-- Between bootstrap classes that are close to each other subclassing is as it was. -/
theorem isSubclass_of_reaches (h : r.ExtendsBase) {c c' : ClassId} (hc : IsBase (.ofClass c))
    (hc' : IsBase (.ofClass c')) (hplain : bootstrap.isPrimitive (.ofClass c) = false)
    (hplain' : bootstrap.isPrimitive (.ofClass c') = false)
    (hreaches : bootstrap.reaches (.ofClass c) 16 [.ofClass c'] [] = true) :
    r.isSubclass (.ofClass c) (.ofClass c') = true := by
  refine isSubclass_ofClass_of_isSubclassPlain ?_
  have hreaches' : r.reaches (.ofClass c) r.searchSteps [.ofClass c'] [] = true := by
    have hsteps : 16 ≤ r.searchSteps := by
      rw [searchSteps]
      omega
    refine reaches_mono hsteps ?_
    rw [h.reaches_eq _ _ _ _ (by simpa using hc')]
    exact hreaches
  have hprimitive : r.isPrimitive (.ofClass c) = false :=
    (h.hasKind_eq .primitive hc).trans hplain
  have hprimitive' : r.isPrimitive (.ofClass c') = false :=
    (h.hasKind_eq .primitive hc').trans hplain'
  simp [isSubclassPlain, hprimitive, hprimitive', hreaches']

theorem isBase_of_isSome {c : ClassId} (h : (bootstrap.class? c).isSome = true) :
    IsBase (.ofClass c) := by
  rcases Option.isSome_iff_exists.mp h with ⟨d, hd⟩
  exact ⟨c, d, rfl, hd⟩

/-- Collections are built as subclasses of the interfaces that they are built for. -/
theorem isSubclass_collections (h : r.ExtendsBase) :
    r.isSubclass (.ofClass r.wellKnown.list) (.ofClass r.wellKnown.arrayList) = true ∧
    r.isSubclass (.ofClass r.wellKnown.collection) (.ofClass r.wellKnown.arrayList) = true ∧
    r.isSubclass (.ofClass r.wellKnown.iterable) (.ofClass r.wellKnown.arrayList) = true ∧
    r.isSubclass (.ofClass r.wellKnown.set) (.ofClass r.wellKnown.linkedHashSet) = true := by
  have hbuilt : ∀ c c', (bootstrap.class? c).isSome = true → (bootstrap.class? c').isSome = true →
      bootstrap.isPrimitive (.ofClass c) = false → bootstrap.isPrimitive (.ofClass c') = false →
      bootstrap.reaches (.ofClass c) 16 [.ofClass c'] [] = true →
      r.isSubclass (.ofClass c) (.ofClass c') = true :=
    fun c c' hc hc' => h.isSubclass_of_reaches (isBase_of_isSome hc) (isBase_of_isSome hc')
  rw [h.wellKnown]
  refine ⟨?_, ?_, ?_, ?_⟩
  all_goals refine hbuilt _ _ ?_ ?_ ?_ ?_ ?_ <;> decide

/-- The top class takes strings. -/
theorem isAssignable_object_string (h : r.ExtendsBase) :
    r.isAssignable r.object (.ofClass r.wellKnown.string) = true := by
  refine isAssignable_of_isSubclass (isSubclass_ofClass_of_isSubclassPlain ?_)
  have hobject : r.isPrimitive (.ofClass r.wellKnown.object) = false := by
    rw [h.wellKnown, isPrimitive, h.hasKind_eq .primitive (isBase_of_isSome (by decide))]
    decide
  have hstring : r.isPrimitive (.ofClass r.wellKnown.string) = false := by
    rw [h.wellKnown, isPrimitive, h.hasKind_eq .primitive (isBase_of_isSome (by decide))]
    decide
  simp [isSubclassPlain, hobject, hstring]

/-! ## Boxes -/

theorem boxes_of_bootstrap : ∀ b ∈ Bootstrap.wellKnown.boxes,
    (bootstrap.class? b.1).isSome = true ∧ bootstrap.isPrimitive (.ofClass b.1) = true ∧
      Bootstrap.wellKnown.boxes.find? (·.2 = b.2) = some b := by
  decide

/-- What has a box has nothing above it. -/
theorem supertypes_of_mem_boxes (h : r.ExtendsBase) {b : ClassId × ClassId}
    (hb : b ∈ r.wellKnown.boxes) : r.supertypes (.ofClass b.1) = [] := by
  have hbootstrap : ∀ b ∈ Bootstrap.wellKnown.boxes, bootstrap.supertypes (.ofClass b.1) = [] := by
    decide
  rw [h.wellKnown] at hb
  have hbase := isBase_of_isSome (boxes_of_bootstrap b hb).1
  exact (h.supertypes_eq hbase).1.trans (hbootstrap b hb)

/-- Types are boxed as in the bootstrap registry. -/
theorem boxed_eq (h : r.ExtendsBase) (e : Erasure) : r.boxed e = bootstrap.boxed e := by
  rw [boxed, boxed, h.wellKnown]
  rfl

/-- What a type is boxed as: itself, or the box of a primitive. -/
theorem eq_or_mem_boxes_of_boxed {r : Registry} {e : Erasure} {c : ClassId}
    (h : r.boxed e = .ofClass c) :
    e = .ofClass c ∨ ∃ p, e = .ofClass p ∧ (p, c) ∈ r.wellKnown.boxes := by
  rw [boxed] at h
  cases hbox : e.asClass?.bind fun c => r.wellKnown.boxes.lookup c with
  | none => exact .inl (by simpa [hbox] using h)
  | some box =>
    obtain rfl : box = c := by simpa [hbox, Erasure.ofClass] using h
    rcases Option.bind_eq_some_iff.mp hbox with ⟨p, hp, hlookup⟩
    obtain rfl := Erasure.eq_ofClass_of_asClass? hp
    refine .inr ⟨p, rfl, ?_⟩
    rcases List.lookup_eq_some_iff.mp hlookup with ⟨before, after, hsplit, -⟩
    rw [hsplit]
    simp

/-- A type may hold what it is boxed as. -/
theorem isAssignable_of_boxed (h : r.ExtendsBase) {e : Erasure} {c : ClassId}
    (hb : r.boxed e = .ofClass c) : r.isAssignable e (.ofClass c) = true := by
  rcases eq_or_mem_boxes_of_boxed hb with rfl | ⟨p, rfl, hmem⟩
  · exact isAssignable_self r _
  · rw [h.wellKnown] at hmem
    rcases boxes_of_bootstrap (p, c) hmem with ⟨hdeclared, hprimitive, hfind⟩
    have hprimitive' : r.isPrimitive (.ofClass p) = true :=
      (h.hasKind_eq .primitive (isBase_of_isSome hdeclared)).trans hprimitive
    have hunboxed : r.unboxed? (.ofClass c) = some (.ofClass p) := by
      simp [unboxed?, h.wellKnown, hfind]
    rw [isAssignable]
    simp [hprimitive', hunboxed]

end ExtendsBase

end Registry

/-- The classes that nothing may extend: strings and the boxes. -/
def WellKnown.finalClasses (wk : WellKnown) : List ClassId :=
  wk.string :: wk.boxes.map (·.2)

namespace Registry

/--
Superclasses are neither arrays nor final classes, and interfaces are interfaces.
-/
structure RegularInheritance (r : Registry) : Prop where
  superclasses : ∀ c s, r.superclass? (.ofClass c) = some s →
    s.isArray = false ∧ ∀ f ∈ r.wellKnown.finalClasses, s ≠ .ofClass f
  interfaces : ∀ c, ∀ i ∈ r.interfaces (.ofClass c), r.isInterface i = true

theorem mem_supertypes_iff (r : Registry) (e s : Erasure) :
    s ∈ r.supertypes e ↔ r.superclass? e = some s ∨ s ∈ r.interfaces e := by
  simp [supertypes]

theorem exists_isSupertype_of_mem {r : Registry} {e s : Erasure} (h : s ∈ r.supertypes e) :
    ∃ t, r.IsSupertype e t ∧ r.rawErasure t = some s := by
  rcases (mem_supertypes_iff r e s).mp h with h | h
  · rcases Option.bind_eq_some_iff.mp h with ⟨t, ht, hs⟩
    exact ⟨t, .inl ht, hs⟩
  · rcases List.mem_filterMap.mp h with ⟨t, ht, hs⟩
    exact ⟨t, .inr ht, hs⟩

theorem finalClasses_of_bootstrap : ∀ f ∈ Bootstrap.wellKnown.finalClasses,
    (bootstrap.class? f).isSome = true ∧ bootstrap.isInterface (.ofClass f) = false ∧
      f ≠ Bootstrap.wellKnown.enumClass ∧
      f ∉ [Bootstrap.wellKnown.object, Bootstrap.wellKnown.cloneable,
        Bootstrap.wellKnown.serializable] := by
  decide

/-- No supertype is an array or a final class. -/
theorem RegularInheritance.supertypes {r : Registry} (hi : r.RegularInheritance)
    (h : r.ExtendsBase) {e s : Erasure} (hs : s ∈ r.supertypes e) :
    s.isArray = false ∧ ∀ f ∈ r.wellKnown.finalClasses, s ≠ .ofClass f := by
  cases harray : e.isArray with
  | true =>
    rcases exists_isSupertype_of_mem hs with ⟨t, ht, hraw⟩
    rcases exists_of_isSupertype_of_isArray harray ht with ⟨c, hc, rfl⟩
    obtain rfl : s = .ofClass c := by
      rw [rawErasure_of_head? r rfl] at hraw
      exact (Option.some.inj hraw).symm
    refine ⟨rfl, fun f hf heq => ?_⟩
    rw [h.wellKnown] at hc hf
    rcases finalClasses_of_bootstrap f hf with ⟨-, -, -, hnot⟩
    obtain rfl : c = f := congrArg Erasure.element heq
    exact hnot hc
  | false =>
    rcases exists_eq_ofClass harray with ⟨c, rfl⟩
    rcases (mem_supertypes_iff r _ s).mp hs with hs | hs
    · exact hi.superclasses c s hs
    · have hinterface := hi.interfaces c s hs
      constructor
      · cases hs' : s.isArray with
        | false => rfl
        | true => simp [isInterface, hasKind, hs'] at hinterface
      · rintro f hf rfl
        rw [h.wellKnown] at hf
        rcases finalClasses_of_bootstrap f hf with ⟨hdeclared, hclass, -⟩
        rw [isInterface, h.hasKind_eq .interface (ExtendsBase.isBase_of_isSome hdeclared),
          ← isInterface, hclass] at hinterface
        simp at hinterface

/-! ## Registries that are built from the bootstrap registry -/

theorem extendsBase_bootstrap : bootstrap.ExtendsBase := ⟨rfl, fun _ _ h => h⟩

/-- A class that is added keeps the classes there are. -/
theorem ExtendsBase.push {r : Registry} (h : r.ExtendsBase) (d : ClassDef) :
    (r.push d).ExtendsBase := by
  refine ⟨h.wellKnown, fun c old hold => ?_⟩
  have hclass : r.classes[c.index.toNat]? = some old := h.classes c old hold
  rcases Array.getElem?_eq_some_iff.mp hclass with ⟨hlt, heq⟩
  change (r.classes.push d)[c.index.toNat]? = some old
  rw [Array.getElem?_push_lt hlt, heq]

theorem ExtendsBase.addTypeParam {r : Registry} (h : r.ExtendsBase) (d : TypeParamDef) :
    (r.addTypeParam d).1.ExtendsBase :=
  ⟨h.wellKnown, h.classes⟩

/-- Whether the superclasses and interfaces of all classes are as they should. -/
def hasRegularInheritance (r : Registry) : Bool :=
  r.numbered.all fun (c, _) =>
    ((r.superclass? (.ofClass c)).all fun s =>
      !s.isArray && r.wellKnown.finalClasses.all fun f => s ≠ .ofClass f) &&
    (r.interfaces (.ofClass c)).all r.isInterface

theorem regularInheritance_of_check {r : Registry} (h : r.hasRegularInheritance = true) :
    r.RegularInheritance := by
  have hclass : ∀ c s, s ∈ r.supertypes (.ofClass c) →
      ((r.superclass? (.ofClass c)).all fun s =>
        !s.isArray && r.wellKnown.finalClasses.all fun f => s ≠ .ofClass f) = true ∧
      (r.interfaces (.ofClass c)).all r.isInterface = true := by
    intro c s hs
    rcases exists_isSupertype_of_mem hs with ⟨t, ht, -⟩
    rcases exists_class?_of_isSupertype ht with ⟨d, hd⟩
    exact Bool.and_eq_true_iff.mp (List.all_eq_true.mp h (c, d) (mem_numbered hd))
  constructor
  · intro c s hs
    rcases hclass c s ((mem_supertypes_iff ..).mpr (.inl hs)) with ⟨hsuper, -⟩
    simpa [hs] using hsuper
  · intro c i hi
    rcases hclass c i ((mem_supertypes_iff ..).mpr (.inr hi)) with ⟨-, hinterfaces⟩
    exact List.all_eq_true.mp hinterfaces i hi

end Registry

end TypeConversion
