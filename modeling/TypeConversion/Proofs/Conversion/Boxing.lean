import TypeConversion.Conversion.Service
import TypeConversion.Proofs.Assignable.Plain

/-!
# Assignability is subclassing of the boxed types

Assignability meets boxing in three places: subclassing is tried on the types as they are, a
primitive target takes its box, and a primitive source is boxed first.  Which of them applies is
told by the kinds of the classes, but what a class is boxed as is told by the well-known classes,
so a primitive class may be declared that has no box.

If no class extends a box these cases amount to boxing both sides and then comparing them as
classes.  A subclass of a box would be below the box of a primitive and yet not be taken by the
primitive.

**Results**

* `isAssignable_eq_isSubclass_boxed`: assignability as subclassing;
* `isAssignable_trans`: assignability is transitive;
* `isAssignableTo_eq_of_getConverter`: descriptors, which are boxed before they are compared, are
  compared as by the fallback of a service, which boxes nothing;
* `boxing_transparent`: all of these together.
-/

namespace TypeConversion

namespace Registry

/-- No class has a box among its proper ancestors. -/
def HasFinalBoxes (r : Registry) : Prop :=
  ∀ c, ∀ b ∈ r.wellKnown.boxes, ¬Relation.TransGen r.HasParent (.ofClass c) (.ofClass b.2)

theorem RegularInheritance.hasFinalBoxes {r : Registry} (hi : r.RegularInheritance)
    (h : r.ExtendsBase) : r.HasFinalBoxes := by
  intro c b hb habove
  rcases Relation.TransGen.tail'_iff.mp habove with ⟨e, -, hparent⟩
  have hfinal : b.2 ∈ r.wellKnown.finalClasses :=
    List.mem_cons_of_mem _ (List.mem_map_of_mem hb)
  exact (hi.supertypes h hparent).2 b.2 hfinal rfl

/-- The classes that arrays are below. -/
def arrayParents (r : Registry) : List ClassId :=
  [r.wellKnown.object, r.wellKnown.cloneable, r.wellKnown.serializable]

theorem mem_arrayParents_iff (r : Registry) (c : ClassId) :
    c ∈ r.arrayParents ↔ Erasure.ofClass c = r.object ∨
      Erasure.ofClass c = .ofClass r.wellKnown.cloneable ∨
      Erasure.ofClass c = .ofClass r.wellKnown.serializable := by
  simp [arrayParents, object, Erasure.ofClass]

/-! ## Boxes -/

/-- Only the primitives that have boxes are boxed. -/
theorem boxed_cases (r : Registry) (e : Erasure) :
    (∃ b ∈ r.wellKnown.boxes, e = .ofClass b.1 ∧ r.boxed e = .ofClass b.2) ∨
      (∀ b ∈ r.wellKnown.boxes, e ≠ .ofClass b.1) ∧ r.boxed e = e := by
  rw [boxed]
  cases hbox : e.asClass?.bind fun c => r.wellKnown.boxes.lookup c with
  | none =>
    refine .inr ⟨?_, rfl⟩
    rintro b hb rfl
    have hlookup : r.wellKnown.boxes.lookup b.1 = none := by simpa using hbox
    simpa using List.lookup_eq_none_iff.mp hlookup b hb
  | some box =>
    rcases Option.bind_eq_some_iff.mp hbox with ⟨p, hp, hlookup⟩
    obtain rfl := Erasure.eq_ofClass_of_asClass? hp
    rcases List.lookup_eq_some_iff.mp hlookup with ⟨before, after, hsplit, -⟩
    exact .inl ⟨(p, box), by simp [hsplit], rfl, rfl⟩

/-- Boxing is one-to-one, boxes have no boxes, and arrays are below no box. -/
theorem boxes_apart : ∀ b ∈ Bootstrap.wellKnown.boxes,
    (bootstrap.class? b.2).isSome = true ∧ bootstrap.isPrimitive (.ofClass b.2) = false ∧
      b.2 ∉ bootstrap.arrayParents ∧
      ∀ b' ∈ Bootstrap.wellKnown.boxes, b.2 ≠ b'.1 ∧ (b.1 = b'.1 ↔ b.2 = b'.2) := by
  decide

namespace ExtendsBase

variable {r : Registry}

theorem isPrimitive_ofClass (h : r.ExtendsBase) {c : ClassId}
    (hc : (bootstrap.class? c).isSome = true) :
    r.isPrimitive (.ofClass c) = bootstrap.isPrimitive (.ofClass c) :=
  h.hasKind_eq .primitive (isBase_of_isSome hc)

section Boxes

variable {b b' : ClassId × ClassId} (h : r.ExtendsBase) (hb : b ∈ r.wellKnown.boxes)
include h hb

theorem isPrimitive_of_mem_boxes :
    r.isPrimitive (.ofClass b.1) = true ∧ r.isPrimitive (.ofClass b.2) = false := by
  rw [h.wellKnown] at hb
  rcases boxes_of_bootstrap b hb with ⟨hdeclared, hprimitive, -⟩
  rcases boxes_apart b hb with ⟨hdeclared', hplain, -⟩
  rw [h.isPrimitive_ofClass hdeclared, h.isPrimitive_ofClass hdeclared']
  exact ⟨hprimitive, hplain⟩

theorem not_mem_arrayParents_of_mem_boxes : b.2 ∉ r.arrayParents := by
  rw [h.wellKnown] at hb
  rw [arrayParents, h.wellKnown]
  exact (boxes_apart b hb).2.2.1

theorem boxes_injective (hb' : b' ∈ r.wellKnown.boxes) : b.1 = b'.1 ↔ b.2 = b'.2 := by
  rw [h.wellKnown] at hb hb'
  exact ((boxes_apart b hb).2.2.2 b' hb').2

/-- A box is boxed as itself. -/
theorem boxed_box : r.boxed (.ofClass b.2) = .ofClass b.2 := by
  rcases boxed_cases r (.ofClass b.2) with ⟨b', hb', heq, -⟩ | ⟨-, hself⟩
  · rw [h.wellKnown] at hb hb'
    have heq' : b.2 = b'.1 := by simpa [Erasure.ofClass] using heq
    exact absurd heq' ((boxes_apart b hb).2.2.2 b' hb').1
  · exact hself

end Boxes

/-- Boxing twice boxes no more than boxing once. -/
theorem boxed_boxed (h : r.ExtendsBase) (e : Erasure) : r.boxed (r.boxed e) = r.boxed e := by
  rcases boxed_cases r e with ⟨b, hb, -, hbox⟩ | ⟨-, hself⟩
  · rw [hbox, h.boxed_box hb]
  · rw [hself, hself]

/-- A class is unboxed to the primitive that it is the box of. -/
theorem unboxed?_eq_some_iff (h : r.ExtendsBase) (s t : Erasure) :
    r.unboxed? s = some t ↔ ∃ b ∈ r.wellKnown.boxes, s = .ofClass b.2 ∧ t = .ofClass b.1 := by
  constructor
  · intro hunboxed
    obtain ⟨b, hb, ht, hs⟩ := exists_box_of_unboxed? hunboxed
    exact ⟨b, hb, hs, ht⟩
  · rintro ⟨b, hb, rfl, rfl⟩
    rw [h.wellKnown] at hb
    simp [unboxed?, h.wellKnown, (boxes_of_bootstrap b hb).2.2]

/-! ## What is below a primitive or a box -/

/-- Primitives are below nothing else, and nothing else is below them. -/
theorem eq_of_isSubclass_of_isPrimitive (h : r.ExtendsBase) {t s : Erasure}
    (hprimitive : r.isPrimitive t = true ∨ r.isPrimitive s = true)
    (hsub : r.isSubclass t s = true) : t = s := by
  by_contra hne
  obtain ⟨ht, hs⟩ := isPrimitive_of_isSubclass h hsub hne
  simp [ht, hs] at hprimitive

/-- Nothing else is below a box if no class extends it. -/
theorem eq_of_isSubclass_box (h : r.ExtendsBase) (hfinal : r.HasFinalBoxes)
    {b : ClassId × ClassId} (hb : b ∈ r.wellKnown.boxes) {s : Erasure}
    (hsub : r.isSubclass (.ofClass b.2) s = true) : s = .ofClass b.2 := by
  have hparents := h.not_mem_arrayParents_of_mem_boxes hb
  rw [mem_arrayParents_iff] at hparents
  cases hs : s.isArray with
  | true => exact absurd ((isSubclass_iff_of_array rfl hs).mp hsub) hparents
  | false =>
    rcases exists_eq_ofClass hs with ⟨c, rfl⟩
    rcases (isSubclass_iff_of_classes rfl hs).mp hsub with heq | ⟨-, -, hobject | hbelow⟩
    · exact heq.symm
    · exact absurd (.inl hobject) hparents
    · rcases Relation.reflTransGen_iff_eq_or_transGen.mp hbelow with heq | habove
      · exact heq.symm
      · exact absurd habove (hfinal c b hb)

/-! ## Assignability -/

theorem isAssignable_iff (r : Registry) (t s : Erasure) :
    r.isAssignable t s = true ↔ r.isSubclass t s = true ∨
      r.isPrimitive t = true ∧ r.unboxed? s = some t ∨
      r.isPrimitive t = false ∧ r.isPrimitive s = true ∧ r.isSubclass t (r.boxed s) = true := by
  rw [isAssignable]
  cases r.isSubclass t s <;> cases r.isPrimitive t <;> cases r.isPrimitive s <;> simp

section

variable (h : r.ExtendsBase) {b : ClassId × ClassId} (hb : b ∈ r.wellKnown.boxes) (s : Erasure)
include h hb

/-- A primitive takes itself and its box. -/
theorem isAssignable_primitive_iff :
    r.isAssignable (.ofClass b.1) s = true ↔ s = .ofClass b.1 ∨ s = .ofClass b.2 := by
  have hprimitive := (h.isPrimitive_of_mem_boxes hb).1
  constructor
  · intro hassign
    rcases (isAssignable_iff ..).mp hassign with hsub | ⟨-, hunboxed⟩ | ⟨hplain, -⟩
    · exact .inl (h.eq_of_isSubclass_of_isPrimitive (.inl hprimitive) hsub).symm
    · rcases (h.unboxed?_eq_some_iff ..).mp hunboxed with ⟨b', hb', rfl, heq⟩
      have hkey : b.1 = b'.1 := by simpa [Erasure.ofClass] using heq
      exact .inr (congrArg Erasure.ofClass ((h.boxes_injective hb hb').mp hkey).symm)
    · simp [hprimitive] at hplain
  · rintro (rfl | rfl)
    · exact isAssignable_self r _
    · exact (isAssignable_iff ..).mpr
        (.inr (.inl ⟨hprimitive, (h.unboxed?_eq_some_iff ..).mpr ⟨b, hb, rfl, rfl⟩⟩))

/-- A box that nothing extends has below it what is boxed as it: itself and its primitive. -/
theorem isSubclass_box_boxed_iff (hfinal : r.HasFinalBoxes) :
    r.isSubclass (.ofClass b.2) (r.boxed s) = true ↔ s = .ofClass b.1 ∨ s = .ofClass b.2 := by
  rcases boxed_cases r s with ⟨b', hb', rfl, hbox⟩ | ⟨hs, hself⟩
  · rw [hbox]
    constructor
    · intro hsub
      have hvalue : b'.2 = b.2 := by
        simpa [Erasure.ofClass] using h.eq_of_isSubclass_box hfinal hb hsub
      exact .inl (congrArg Erasure.ofClass ((h.boxes_injective hb' hb).mpr hvalue))
    · intro heq
      have hvalue : b'.2 = b.2 := by
        rcases heq with heq | heq
        · exact (h.boxes_injective hb' hb).mp (by simpa [Erasure.ofClass] using heq)
        · rw [heq, h.boxed_box hb] at hbox
          simpa [Erasure.ofClass] using hbox.symm
      rw [hvalue, isSubclass_self]
  · rw [hself]
    constructor
    · exact fun hsub => .inr (h.eq_of_isSubclass_box hfinal hb hsub)
    · rintro (rfl | rfl)
      · exact absurd rfl (hs b hb)
      · exact isSubclass_self r _

end

/-- For a target that is not boxed it is enough to box the source. -/
theorem isAssignable_eq_of_forall_ne (h : r.ExtendsBase) {t : Erasure}
    (ht : ∀ b ∈ r.wellKnown.boxes, t ≠ .ofClass b.1) (s : Erasure) :
    r.isAssignable t s = r.isSubclass t (r.boxed s) := by
  have hunboxed : r.unboxed? s ≠ some t := by
    intro hunboxed
    rcases (h.unboxed?_eq_some_iff ..).mp hunboxed with ⟨b, hb, -, heq⟩
    exact ht b hb heq
  rw [Bool.eq_iff_iff, isAssignable_iff]
  rcases boxed_cases r s with ⟨b, hb, rfl, hbox⟩ | ⟨-, hself⟩
  · rcases h.isPrimitive_of_mem_boxes hb with ⟨hprimitive, hplain⟩
    have hsource : r.isSubclass t (.ofClass b.1) ≠ true := fun hsub =>
      ht b hb (h.eq_of_isSubclass_of_isPrimitive (.inr hprimitive) hsub)
    -- a primitive class without a box is not above a box either
    have hbox' : r.isSubclass t (.ofClass b.2) = true → r.isPrimitive t = false := by
      intro hsub
      rw [← Bool.not_eq_true]
      intro htarget
      obtain rfl := h.eq_of_isSubclass_of_isPrimitive (.inl htarget) hsub
      simp [hplain] at htarget
    rw [hbox]
    constructor
    · rintro (hsub | ⟨-, hsub⟩ | ⟨-, -, hsub⟩)
      · exact absurd hsub hsource
      · exact absurd hsub hunboxed
      · exact hsub
    · exact fun hsub => .inr (.inr ⟨hbox' hsub, hprimitive, hsub⟩)
  · rw [hself]
    constructor
    · rintro (hsub | ⟨-, hsub⟩ | ⟨-, -, hsub⟩)
      · exact hsub
      · exact absurd hsub hunboxed
      · exact hsub
    · exact .inl

/--
A type may be used for another if it is a subclass of it once both are boxed, provided that no class
extends a box.
-/
theorem isAssignable_eq_isSubclass_boxed (h : r.ExtendsBase) (hfinal : r.HasFinalBoxes)
    (t s : Erasure) : r.isAssignable t s = r.isSubclass (r.boxed t) (r.boxed s) := by
  rcases boxed_cases r t with ⟨b, hb, rfl, hbox⟩ | ⟨ht, hself⟩
  · rw [Bool.eq_iff_iff, hbox, h.isAssignable_primitive_iff hb,
      h.isSubclass_box_boxed_iff hb s hfinal]
  · rw [hself, h.isAssignable_eq_of_forall_ne ht]

/-- Nothing changes if both sides have been boxed before. -/
theorem isAssignable_boxed (h : r.ExtendsBase) (hfinal : r.HasFinalBoxes) (t s : Erasure) :
    r.isAssignable (r.boxed t) (r.boxed s) = r.isAssignable t s := by
  simp only [h.isAssignable_eq_isSubclass_boxed hfinal, h.boxed_boxed]

/-! ## Transitivity -/

/-- Erasures of equal dimensions are compared by their classes; deeper ones are below three. -/
theorem isSubclass_iff_dims (h : r.ExtendsBase) (t s : Erasure) :
    r.isSubclass t s = true ↔
      t.dims.toNat = s.dims.toNat ∧
          r.isSubclass (.ofClass t.element) (.ofClass s.element) = true ∨
        t.dims.toNat < s.dims.toNat ∧ t.element ∈ r.arrayParents := by
  have hclass : ∀ e : Erasure, e.isArray = false → e.dims.toNat = 0 := by
    intro e he
    rw [← Bool.not_eq_true, Erasure.isArray_iff] at he
    omega
  -- each step takes one dimension off both sides, until the target is a class
  induction hn : t.dims.toNat generalizing t s with
  | zero =>
    rw [Erasure.eq_ofClass_of_dims hn]
    cases hs : s.isArray with
    | false =>
      rcases exists_eq_ofClass hs with ⟨c, rfl⟩
      simp
    | true =>
      have hdims := s.isArray_iff.mp hs
      rw [isSubclass_iff_of_array rfl hs, ← mem_arrayParents_iff]
      simp [hdims, hdims.ne]
  | succ n ih =>
    have ht : t.isArray = true := t.isArray_iff.mpr (by omega)
    obtain ⟨t', ht', htdims, helement⟩ := Erasure.exists_component? hn
    cases hs : s.dims.toNat with
    | zero =>
      rw [not_isSubclass_of_array ht (by rw [Erasure.eq_ofClass_of_dims hs]; rfl)]
      simp
    | succ m =>
      obtain ⟨s', hs', hsdims, helement'⟩ := Erasure.exists_component? hs
      rw [isSubclass_eq_of_components h ht' hs']
      refine (ih t' s' htdims).trans ?_
      rw [helement, helement', hsdims]
      simp

/-- The classes that arrays are below are below no others. -/
theorem mem_arrayParents_of_isSubclass (h : r.ExtendsBase) {a b : ClassId}
    (hb : b ∈ r.arrayParents) (hsub : r.isSubclass (.ofClass a) (.ofClass b) = true) :
    a ∈ r.arrayParents := by
  have hbootstrap : ∀ c ∈ bootstrap.arrayParents, (bootstrap.class? c).isSome = true ∧
      bootstrap.supertypes (.ofClass c) = [] := by
    decide
  have hnone : r.supertypes (.ofClass b) = [] := by
    rw [arrayParents, h.wellKnown] at hb
    obtain ⟨hdeclared, hnone⟩ := hbootstrap b hb
    exact (h.supertypes_eq (isBase_of_isSome hdeclared)).1.trans hnone
  rcases (isSubclass_iff_of_classes rfl rfl).mp hsub with heq | ⟨-, -, hobject | hbelow⟩
  · rwa [show a = b by simpa [Erasure.ofClass] using heq]
  · exact (r.mem_arrayParents_iff a).mpr (.inl hobject)
  · rcases Relation.ReflTransGen.cases_head hbelow with heq | ⟨s, hs, -⟩
    · rwa [show a = b by simpa [Erasure.ofClass] using heq.symm]
    · rw [HasParent, hnone] at hs
      simp at hs

theorem isSubclass_trans (h : r.ExtendsBase) {a b c : Erasure} (hab : r.isSubclass a b = true)
    (hbc : r.isSubclass b c = true) : r.isSubclass a c = true := by
  have hobject : r.genericInterfaces r.object = [] := by
    have hbase : IsBase bootstrap.object := isBase_of_isSome (by decide)
    rw [object, h.wellKnown]
    exact (h.genericInterfaces_eq hbase).trans (by decide)
  rw [h.isSubclass_iff_dims] at hab hbc ⊢
  rcases hab with ⟨hdims, hab⟩ | ⟨hdims, ha⟩
  · rcases hbc with ⟨hdims', hbc⟩ | ⟨hdims', hb⟩
    · exact .inl ⟨hdims.trans hdims', isSubclass_trans_classes hobject rfl rfl rfl hab hbc⟩
    · exact .inr ⟨hdims ▸ hdims', h.mem_arrayParents_of_isSubclass hb hab⟩
  · rcases hbc with ⟨hdims', -⟩ | ⟨hdims', -⟩
    · exact .inr ⟨hdims' ▸ hdims, ha⟩
    · exact .inr ⟨hdims.trans hdims', ha⟩

/-- Assignability is transitive if no class extends a box. -/
theorem isAssignable_trans (h : r.ExtendsBase) (hfinal : r.HasFinalBoxes) {a b c : Erasure}
    (hab : r.isAssignable a b = true) (hbc : r.isAssignable b c = true) :
    r.isAssignable a c = true := by
  rw [h.isAssignable_eq_isSubclass_boxed hfinal] at hab hbc ⊢
  exact h.isSubclass_trans hab hbc

end ExtendsBase

end Registry

namespace TypeDescriptor

/-- Whether the elements of two types are assignable, where both have elements. -/
def elementsAssignable (limit depth : Nat) (d target : TypeDescriptor) : Walk Bool := do
  if (d.isArray && target.isArray) || (d.isCollection && target.isCollection) then
    match ← d.element? limit, ← target.element? limit with
    | some ours, some theirs =>
      if ← ours.isDefinite limit then isAssignableTo limit depth ours theirs else return true
    | _, _ => return true
  else return true

/-- A definite target takes what its erasure takes, if it takes the elements. -/
theorem isAssignableTo_succ (limit depth : Nat) (d target : TypeDescriptor) :
    d.isAssignableTo limit (depth + 1) target = (do
      if !(← target.isDefinite limit) then return true
      else if !d.registry.isAssignable target.objectErasure d.objectErasure then return false
      else d.elementsAssignable limit depth target) := by
  rw [isAssignableTo]
  rfl

end TypeDescriptor

namespace ConversionService

/-- Where no converter is found the erasures decide, as they are, whether a value passes through. -/
theorem getConverter_of_findConverter {s : ConversionService} {limit : Nat}
    {source target : TypeDescriptor} (hfind : s.findConverter limit source target = some none) :
    s.getConverter limit source target =
      some (if s.config.noOpFallback && s.registry.isAssignable target.erasure source.erasure then
        some .passThrough else none) := by
  have hchoose : s.converters.find (s.context limit) source target = some none := hfind
  rw [getConverter, chooseConverter, hchoose]
  cases s.config.noOpFallback && s.registry.isAssignable target.erasure source.erasure <;> rfl

end ConversionService

namespace Registry

variable {r : Registry}

/-- Descriptors of one registry compare their erasures as they are. -/
theorem ExtendsBase.isAssignable_objectErasure (h : r.ExtendsBase) (hfinal : r.HasFinalBoxes)
    {d target : TypeDescriptor} (hd : d.registry = r) (ht : target.registry = r) :
    r.isAssignable target.objectErasure d.objectErasure =
      r.isAssignable target.erasure d.erasure := by
  rw [TypeDescriptor.objectErasure, TypeDescriptor.objectErasure, hd, ht,
    h.isAssignable_boxed hfinal]

/-- What is assignable to a definite target is what the fallback of a service lets through, except
that elements are looked at as well. -/
theorem ExtendsBase.isAssignableTo_eq_of_getConverter (h : r.ExtendsBase)
    (hfinal : r.HasFinalBoxes) {s : ConversionService} (hs : s.registry = r)
    (hfallback : s.config.noOpFallback = true) {d target : TypeDescriptor} (hd : d.registry = r)
    (ht : target.registry = r) {limit : Nat}
    (hfind : s.findConverter limit d target = some none) (steps depth : Nat) :
    d.isAssignableTo steps (depth + 1) target = (do
      if !(← target.isDefinite steps) then return true
      else if (← s.getConverter limit d target).isNone then return false
      else d.elementsAssignable steps depth target) := by
  rw [TypeDescriptor.isAssignableTo_succ, hd, h.isAssignable_objectErasure hfinal hd ht,
    ConversionService.getConverter_of_findConverter hfind, hfallback, hs]
  cases r.isAssignable target.erasure d.erasure <;> rfl

/--
If no class extends a box, one type may be used for another just if it is a subclass of it once both
are boxed.  So types are related reflexively and transitively, and descriptors, which are boxed
before they are compared, are compared as by the fallback of a service, which boxes nothing.
-/
theorem boxing_transparent (h : r.ExtendsBase) (hfinal : r.HasFinalBoxes) :
    (∀ t s, r.isAssignable t s = r.isSubclass (r.boxed t) (r.boxed s)) ∧
      (∀ t, r.isAssignable t t = true) ∧
      (∀ a b c, r.isAssignable a b = true → r.isAssignable b c = true →
        r.isAssignable a c = true) ∧
      (∀ d target : TypeDescriptor, d.registry = r → target.registry = r →
        r.isAssignable target.objectErasure d.objectErasure =
          r.isAssignable target.erasure d.erasure) ∧
      ∀ (s : ConversionService) (d target : TypeDescriptor) (limit : Nat), s.registry = r →
        d.registry = r → target.registry = r → s.findConverter limit d target = some none →
        s.config.noOpFallback = true → ∀ steps depth,
          d.isAssignableTo steps (depth + 1) target = (do
            if !(← target.isDefinite steps) then return true
            else if (← s.getConverter limit d target).isNone then return false
            else d.elementsAssignable steps depth target) := by
  refine ⟨h.isAssignable_eq_isSubclass_boxed hfinal, isAssignable_self r,
    fun a b c => h.isAssignable_trans hfinal,
    fun d target => h.isAssignable_objectErasure hfinal, ?_⟩
  intro s d target limit hs hd ht hfind hfallback
  exact h.isAssignableTo_eq_of_getConverter hfinal hs hfallback hd ht hfind

/-- The bootstrap registry with a primitive class that has no box, and a class of numbers. -/
def withToken : Registry :=
  (bootstrap.push { name := "token", kind := .primitive }).push
    { name := "Purse", superClass := some (.ofClass Bootstrap.wellKnown.number),
      interfaces := [.ofClass Bootstrap.wellKnown.cloneable] }

/-- Tokens are related to nothing else, and integers are numbers whether boxed or not. -/
theorem boxing_transparent_withToken :
    withToken.ExtendsBase ∧ withToken.HasFinalBoxes ∧
      withToken.isAssignable (.ofClass ⟨37⟩) (.ofClass ⟨37⟩) = true ∧
      withToken.isAssignable withToken.object (.ofClass ⟨37⟩) = false ∧
      withToken.isAssignable withToken.object (.ofClass Bootstrap.wellKnown.primInt) = true ∧
      (TypeDescriptor.ofErasure withToken (.ofClass Bootstrap.wellKnown.primInt)).isAssignableTo 4 4
        (.ofErasure withToken (.ofClass Bootstrap.wellKnown.number)) = some true := by
  have hbase : withToken.ExtendsBase := (extendsBase_bootstrap.push _).push _
  have hregular : withToken.RegularInheritance := regularInheritance_of_check (by decide +kernel)
  have hfinal := hregular.hasFinalBoxes hbase
  obtain ⟨hboxed, hrefl, htrans, -, hfallback⟩ := boxing_transparent hbase hfinal
  refine ⟨hbase, hfinal, hrefl _, (hboxed _ _).trans (by decide +kernel),
    htrans _ (.ofClass Bootstrap.wellKnown.number) _ ((hboxed _ _).trans (by decide +kernel))
      ((hboxed _ _).trans (by decide +kernel)), ?_⟩
  have hnone : (ConversionService.bare withToken {}).findConverter 4
      (.ofErasure withToken (.ofClass Bootstrap.wellKnown.primInt))
      (.ofErasure withToken (.ofClass Bootstrap.wellKnown.number)) = some none := by
    have hempty : ∀ a b, Converters.empty.candidates withToken a b = [] := by
      simp [Converters.candidates, Converters.empty, Converters.atPair, List.flatMap_eq_nil_iff]
    change Converters.firstAccepting _ _ _ (Converters.empty.candidates withToken _ _ ++ []) = _
    rw [hempty]
    rfl
  rw [hfallback (ConversionService.bare withToken {}) _ _ 4 rfl rfl rfl hnone rfl,
    ConversionService.getConverter_of_findConverter hnone]
  decide +kernel

end Registry

end TypeConversion
