import TypeConversion.Conversion.Descriptor
import TypeConversion.Proofs.Node.ArrayShape
import TypeConversion.Proofs.Registry.Base

/-!
# Descriptors and their elements

A descriptor is consistent if its erasure is that of its node, wherever the node has one.  All ways
of making a descriptor give a consistent one, and so does going down to the elements.  The array of
the elements of an array is the array itself, unless the elements have as many dimensions as there
may be.
-/

namespace TypeConversion

/-- An interface strictly below lists or sets, which collections are not built for. -/
def Registry.IsSubInterface (r : Registry) (e : Erasure) : Prop :=
  r.isInterface e = true ∧
    (e ≠ .ofClass r.wellKnown.list ∧ r.isSubclass (.ofClass r.wellKnown.list) e = true ∨
      e ≠ .ofClass r.wellKnown.set ∧ r.isSubclass (.ofClass r.wellKnown.set) e = true)

namespace TypeDescriptor

open Walk Registry

/-- The erasure of an optional node. -/
def NodeResolvesTo (r : Registry) (n : Option Node) (e : Option Erasure) : Prop :=
  Finds (fun limit => Node.resolveOption r limit n) e

/-- A descriptor of a registry, with the erasure of its node wherever that has one. -/
structure Consistent (r : Registry) (d : TypeDescriptor) : Prop where
  registry : d.registry = r
  erasure : ∀ e, NodeResolvesTo r d.node (some e) → d.erasure = e

/-- The ways to make a descriptor: of a node, an erasure, a field or a method parameter. -/
inductive IsMade (r : Registry) (limit : Nat) : TypeDescriptor → Prop
  | ofNode {node : Option Node} {d : TypeDescriptor} (h : ofNode limit r node = some d) :
      IsMade r limit d
  | ofErasure (e : Erasure) : IsMade r limit (ofErasure r e)
  | ofField {c : ClassId} {name : String} {d : TypeDescriptor}
      (h : ofField limit r c name = some (.ok d)) : IsMade r limit d
  | ofFieldIn {declaring implementation : ClassId} {name : String} {d : TypeDescriptor}
      (h : ofFieldIn limit r declaring name implementation = some (.ok d)) : IsMade r limit d
  | ofMethodParameter {p : MethodParameter} {d : TypeDescriptor}
      (h : ofMethodParameter limit r p = some (.ok d)) : IsMade r limit d

variable {r : Registry} {limit : Nat}

/-- A descriptor with the erasure of its node, if there is one, is consistent. -/
theorem consistent_make {node : Option Node} {erasure found : Option Erasure}
    {annotations : List Annotation} {d : TypeDescriptor}
    (h : make limit r node erasure annotations = some d)
    (hfound : Node.resolveOption r limit node = some found)
    (herasure : ∀ e ∈ found, ∀ a ∈ erasure, a = e) : Consistent r d := by
  have hunique : ∀ e, NodeResolvesTo r node (some e) → found = some e := fun e he =>
    (he.eq_of_some (Node.resolveOption_steady r node) hfound).symm
  cases erasure with
  | some a =>
    obtain rfl := Option.some.inj h
    refine ⟨rfl, fun e he => ?_⟩
    exact herasure e (hunique e he) a rfl
  | none =>
    simp only [make, hfound, Option.bind_eq_bind, Option.bind_some] at h
    obtain rfl := Option.some.inj h
    refine ⟨rfl, fun e he => ?_⟩
    simp [hunique e he]

theorem consistent_ofNode {node : Option Node} {d : TypeDescriptor}
    (h : ofNode limit r node = some d) : Consistent r d := by
  rw [ofNode] at h
  rcases Option.bind_eq_some_iff.mp (show _ >>= _ = some d from h) with ⟨found, hfound, -⟩
  exact consistent_make h hfound (by simp)

theorem consistent_ofErasure (e : Erasure) : Consistent r (ofErasure r e) := by
  refine ⟨rfl, fun a ha => ?_⟩
  have := (Node.resolvesTo_of_plain (n := Node.ofErasure e) (Node.expr_written ..) _).mp ha
  exact (Option.some.inj this).symm

theorem consistent_ofDeclared {node : Option Node} {declared : Option TypeExpr}
    {annotations : List Annotation} {d : TypeDescriptor}
    (h : ofDeclared limit r node declared annotations = some d) : Consistent r d := by
  rcases Option.bind_eq_some_iff.mp h with ⟨found, hfound, h⟩
  refine consistent_make h hfound ?_
  rintro e rfl a ha
  simpa using ha.symm

/-- Every descriptor that is made is consistent. -/
theorem IsMade.consistent {d : TypeDescriptor} (h : IsMade r limit d) : Consistent r d := by
  cases h with
  | ofNode h => exact consistent_ofNode h
  | ofErasure e => exact consistent_ofErasure e
  | @ofField c name _ h =>
    rw [TypeDescriptor.ofField] at h
    split at h
    · simp at h
    · rcases Option.bind_eq_some_iff.mp h with ⟨d', hd', h⟩
      obtain rfl : d' = d := by simpa using h
      exact consistent_ofDeclared hd'
  | @ofFieldIn declaring implementation name _ h =>
    rw [TypeDescriptor.ofFieldIn] at h
    split at h
    · simp at h
    · rcases Option.bind_eq_some_iff.mp h with ⟨node, -, h⟩
      rcases Option.bind_eq_some_iff.mp h with ⟨d', hd', h⟩
      obtain rfl : d' = d := by simpa using h
      exact consistent_ofDeclared hd'
  | @ofMethodParameter p _ h =>
    rcases Option.bind_eq_some_iff.mp h with ⟨node, -, h⟩
    cases node with
    | error e => simp at h
    | ok node =>
      dsimp only at h
      split at h
      · simp at h
      · simp at h
      · rcases Option.bind_eq_some_iff.mp h with ⟨d', hd', h⟩
        obtain rfl : d' = d := by simpa using h
        exact consistent_ofDeclared hd'

/-- The descriptor of the elements of another. -/
def HasElement (d element : TypeDescriptor) : Prop :=
  ∃ limit, d.element? limit = some (some element)

theorem make_steady (node : Option Node) (erasure : Option Erasure)
    (annotations : List Annotation) :
    Steady fun limit => make limit r node erasure annotations := by
  cases erasure with
  | some e => exact .const _
  | none => exact (Node.resolveOption_steady r node).bind fun _ => .const _

theorem componentNode_steady (node : Option Node) :
    Steady fun limit => componentNode limit r node := by
  cases node with
  | none => exact .const _
  | some n => exact Node.componentType_steady r n

/-- The elements of a type are the same under every limit that they are found under. -/
theorem element?_steady (d : TypeDescriptor) : Steady fun limit => d.element? limit := by
  simp only [element?]
  split
  · refine (componentNode_steady d.node).bind fun component => ?_
    refine (Node.resolveOption_steady d.registry component).bind fun found => ?_
    exact (make_steady component _ d.annotations).bind fun _ => .const _
  · split
    · refine (Node.asErasure_steady d.registry d.node _).bind fun view => ?_
      refine (Node.getGeneric_steady d.registry [] view).bind fun argument => ?_
      exact (make_steady argument none d.annotations).bind fun _ => .const _
    · exact .const _

/-- There is one descriptor of the elements. -/
theorem HasElement.unique {d e e' : TypeDescriptor} (h : d.HasElement e) (h' : d.HasElement e') :
    e = e' :=
  Option.some.inj (Finds.unique (element?_steady d) h h')

/-- What is found for the elements of a consistent descriptor. -/
theorem exists_component_of_isArray {d element : TypeDescriptor} (hd : Consistent r d)
    (harray : d.isArray = true) (h : d.element? limit = some (some element)) :
    ∃ component found, componentNode limit r d.node = some component ∧
      Node.resolveOption r limit component = some found ∧
      make limit r component (found.or d.erasure.component?) d.annotations = some element := by
  rcases hd with ⟨rfl, -⟩
  simp only [element?, harray, if_true] at h
  rcases Option.bind_eq_some_iff.mp h with ⟨component, hcomponent, h⟩
  rcases Option.bind_eq_some_iff.mp h with ⟨found, hfound, h⟩
  rcases Option.bind_eq_some_iff.mp h with ⟨e, he, h⟩
  obtain rfl : e = element := by simpa using h
  exact ⟨component, found, hcomponent, hfound, he⟩

/-- What has elements is an array, or a collection whose argument the elements are of. -/
theorem exists_argument_of_not_isArray {d element : TypeDescriptor} (hd : Consistent r d)
    (harray : d.isArray = false) (h : d.element? limit = some (some element)) :
    ∃ argument, make limit r argument none d.annotations = some element := by
  rcases hd with ⟨rfl, -⟩
  simp only [element?, harray, Bool.false_eq_true, if_false] at h
  split at h
  · rcases Option.bind_eq_some_iff.mp h with ⟨view, -, h⟩
    rcases Option.bind_eq_some_iff.mp h with ⟨argument, -, h⟩
    rcases Option.bind_eq_some_iff.mp h with ⟨e, he, h⟩
    obtain rfl : e = element := by simpa using h
    exact ⟨argument, he⟩
  · simp at h

/-- A descriptor without a given erasure has that of its node, or else the top class. -/
theorem exists_resolveOption_of_make {node : Option Node} {annotations : List Annotation}
    {d : TypeDescriptor} (h : make limit r node none annotations = some d) :
    ∃ found, Node.resolveOption r limit node = some found ∧
      d = ⟨r, node, found.getD r.object, annotations⟩ := by
  rcases Option.bind_eq_some_iff.mp (show _ >>= _ = some d from h) with ⟨found, hfound, h⟩
  exact ⟨found, hfound, (Option.some.inj h).symm⟩

/-- The elements of a consistent descriptor are described consistently. -/
theorem Consistent.element {d element : TypeDescriptor} (hd : Consistent r d)
    (h : d.HasElement element) : Consistent r element := by
  rcases h with ⟨limit, h⟩
  cases harray : d.isArray with
  | true =>
    rcases exists_component_of_isArray hd harray h with ⟨component, found, -, hfound, hmake⟩
    refine consistent_make hmake hfound ?_
    rintro e rfl a ha
    simpa using ha.symm
  | false =>
    rcases exists_argument_of_not_isArray hd harray h with ⟨argument, hmake⟩
    rcases exists_resolveOption_of_make hmake with ⟨found, hfound, -⟩
    exact consistent_make hmake hfound (by simp)

/-- The array of the elements of an array is the array, as far as dimensions go. -/
theorem Consistent.array_element {d element : TypeDescriptor} (hd : Consistent r d)
    (harray : d.isArray = true) (h : d.HasElement element) (hdims : element.erasure.dims ≠ 255) :
    element.erasure.array = d.erasure := by
  rcases h with ⟨limit, h⟩
  rcases exists_component_of_isArray hd harray h with
    ⟨component, found, hcomponent, hfound, hmake⟩
  cases found with
  | none =>
    cases hc : d.erasure.component? with
    | none =>
      rw [Erasure.component?, show d.erasure.isArray = true from harray] at hc
      simp at hc
    | some k =>
      obtain rfl : (⟨r, component, k, d.annotations⟩ : TypeDescriptor) = element := by
        simpa [make, hc] using hmake
      exact Erasure.array_eq_of_array? (Erasure.array?_of_component? hc)
  | some e =>
    obtain rfl : (⟨r, component, e, d.annotations⟩ : TypeDescriptor) = element := by
      simpa [make] using hmake
    have ha : e.array? = some ⟨e.element, e.dims + 1⟩ := by
      rw [Erasure.array?, if_neg hdims]
    rw [Erasure.array_eq_of_array? ha]
    refine (hd.erasure _ ?_).symm
    cases hnode : d.node with
    | none =>
      obtain rfl : component = none := by simpa [componentNode, hnode, eq_comm] using hcomponent
      simp [Node.resolveOption] at hfound
    | some n =>
      rw [hnode] at hcomponent
      cases component with
      | none => simp [Node.resolveOption] at hfound
      | some c =>
        have hc : Node.ComponentIs r n (some c) := .intro limit hcomponent
        have hresolves := hc.resolvesTo (.intro limit hfound)
        rw [ha] at hresolves
        exact hresolves

/-- The elements of what is no array stand for the top class if they are not definite. -/
theorem Consistent.erasure_eq_object {d element : TypeDescriptor} (hd : Consistent r d)
    (harray : d.isArray = false) (h : d.element? limit = some (some element))
    (hdefinite : element.isDefinite limit = some false) : element.erasure = r.object := by
  rcases exists_argument_of_not_isArray hd harray h with ⟨argument, hmake⟩
  rcases exists_resolveOption_of_make hmake with ⟨found, hfound, rfl⟩
  rcases Option.bind_eq_some_iff.mp (show _ >>= _ = some false from hdefinite) with
    ⟨found', hfound', hnone⟩
  obtain rfl : found = found' := Option.some.inj (hfound.symm.trans hfound')
  cases found with
  | none => rfl
  | some e => simp at hnone

/-! ## Ordinary types -/

/-- A descriptor and the descriptors of its elements, of the elements of these, and so on. -/
def Contains : TypeDescriptor → TypeDescriptor → Prop := Relation.ReflTransGen HasElement

/--
A type that has a collection to be built for it at every depth, and whose arrays have no more
dimensions than there may be.
-/
structure Ordinary (t : TypeDescriptor) : Prop where
  noSubInterface : ∀ d, t.Contains d → ¬d.registry.IsSubInterface d.erasure
  dims : ∀ d element, t.Contains d → d.HasElement element → d.isArray = true →
    element.erasure.dims ≠ 255

theorem Ordinary.element {t element : TypeDescriptor} (h : t.Ordinary)
    (helement : t.HasElement element) : element.Ordinary where
  noSubInterface d hd := h.noSubInterface d (hd.head helement)
  dims d e hd := h.dims d e (hd.head helement)

/-- A descriptor whose node is written as a class, or as an array of it. -/
structure IsPlainOf (r : Registry) (c : ClassId) (d : TypeDescriptor) : Prop where
  registry : d.registry = r
  element : d.erasure.element = c
  node : ∃ context, d.node = some (.written (.plain d.erasure) context)

theorem IsPlainOf.consistent {c : ClassId} {d : TypeDescriptor} (h : IsPlainOf r c d) :
    Consistent r d := by
  refine ⟨h.registry, fun e he => ?_⟩
  rcases h.node with ⟨context, hnode⟩
  rw [hnode] at he
  have := (Node.resolvesTo_of_plain (Node.expr_written ..) _).mp he
  exact (Option.some.inj this).symm

/-- The elements of an array of a class are of the class, with one dimension less. -/
theorem IsPlainOf.of_hasElement {c : ClassId} {d element : TypeDescriptor} (hd : IsPlainOf r c d)
    (hcollection : r.isSubclass (.ofClass r.wellKnown.collection) (.ofClass c) = false)
    (h : d.HasElement element) :
    IsPlainOf r c element ∧ element.erasure.dims.toNat + 1 = d.erasure.dims.toNat := by
  rcases h with ⟨limit, h⟩
  cases harray : d.isArray with
  | true =>
    rcases exists_component_of_isArray hd.consistent harray h with
      ⟨component, found, hcomponent, hfound, hmake⟩
    rcases hd.node with ⟨context, hnode⟩
    rw [hnode] at hcomponent
    have hcomponent' := (Node.componentIs_plain_iff ..).mp (.intro limit hcomponent)
    cases hk : d.erasure.component? with
    | none =>
      rw [Erasure.component?, show d.erasure.isArray = true from harray] at hk
      simp at hk
    | some k =>
      obtain rfl : component = some (.written (.plain k) context) := by
        simpa [hk] using hcomponent'
      obtain rfl : found = some k :=
        (Node.resolvesTo_of_plain (Node.expr_written ..) _).mp (.intro limit hfound)
      obtain rfl := Option.some.inj hmake
      have helement : k.element = d.erasure.element := by
        rcases (Erasure.array?_eq_some_iff ..).mp (Erasure.array?_of_component? hk) with ⟨-, heq⟩
        rw [heq]
      exact ⟨⟨rfl, helement.trans hd.element, context, rfl⟩, Erasure.toNat_dims_of_component? hk⟩
  | false =>
    rcases exists_eq_ofClass (e := d.erasure) harray with ⟨c', hc'⟩
    have hcc : c' = c := by
      have := hd.element
      rwa [hc'] at this
    have hnot : d.isCollection = false := by
      rw [isCollection, hd.registry, hc', hcc]
      exact hcollection
    simp [element?, harray, hnot] at h

/-- A class that is no interface and no collection is ordinary, and so are all arrays of it. -/
theorem IsPlainOf.ordinary {c : ClassId} {t : TypeDescriptor} (ht : IsPlainOf r c t)
    (hinterface : r.isInterface (.ofClass c) = false)
    (hcollection : r.isSubclass (.ofClass r.wellKnown.collection) (.ofClass c) = false) :
    t.Ordinary := by
  have hplain : ∀ d, t.Contains d → IsPlainOf r c d := by
    intro d hd
    induction hd with
    | refl => exact ht
    | tail _ hstep ih => exact (ih.of_hasElement hcollection hstep).1
  constructor
  · rintro d hd ⟨hd', -⟩
    have hplain := hplain d hd
    rw [hplain.registry, isInterface, hasKind, hplain.element] at hd'
    have hclass : (r.class? c).any (·.kind = .interface) = false := by
      simpa [isInterface, hasKind] using hinterface
    simp [hclass] at hd'
  · intro d element hd helement _ hdims
    have hlt := ((hplain d hd).of_hasElement hcollection helement).2
    have hbound := d.erasure.dims.toNat_lt
    rw [hdims] at hlt
    change 255 + 1 = _ at hlt
    omega

end TypeDescriptor

end TypeConversion
