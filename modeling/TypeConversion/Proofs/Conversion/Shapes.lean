import TypeConversion.Proofs.Conversion.Idempotence
import TypeConversion.Proofs.Conversion.Misfits
import TypeConversion.Proofs.Dispatch.Ancestors

/-!
# Converters are found for what they are for

A service with the built-in converters chooses a converter by the classes of source and target, and
a converter reads a value by its shape.  If every value is of a class that goes with its shape, and
no target is one of two kinds for which classes and shapes disagree, then no conversion fails by a
misfit, at any depth; and everything is converted to a string.

A value's class may not be that of strings or of numbers, nor below that of collections, unless its
shape says so.  Of the targets, the class of enums is met by itself without being an enum, and a
primitive class is found below collections by dispatch, while subclassing relates it to none.

**Results**

* `chosen_fits`: a converter that is chosen does not fail by a misfit, if elements do not;
* `convertIn_fits`, `sparesShaped_contextAt`: so it is for a conversion, however deep calls go;
* `convertIn_string_gives`: where strings are asked for there is one;
* `convert_fits`: both for a service with the built-in converters;
* `primitives_misfit`: neither holds for objects and targets of primitive classes.
-/

namespace TypeConversion

open Attempt Registry

/-! ## Shapes of values -/

namespace Value

/--
The class of a value goes with its shape: enum constants are of enums, collections of a class below
that of collections, and host objects of neither, nor of a class of strings or numbers.
-/
def HasOwnShape (r : Registry) : Value → Prop
  | enumConstant c _ =>
    r.isEnum (.ofClass c) = true ∧ ¬r.IsBelow (.ofClass c) (.ofClass r.wellKnown.collection)
  | collection c _ => r.IsBelow (.ofClass c) (.ofClass r.wellKnown.collection)
  | object c _ =>
    c ≠ r.wellKnown.string ∧ NumericKind.ofErasure? r (.ofClass c) = none ∧
      ¬r.IsBelow (.ofClass c) (.ofClass r.wellKnown.collection)
  | _ => True

/-- A value whose class goes with its shape, and so it is for its elements at every depth. -/
inductive WellShaped (r : Registry) : Value → Prop
  | intro {v : Value} (shape : v.HasOwnShape r)
      (elements : ∀ es, v.elements? = some es → ∀ e, some e ∈ es → WellShaped r e) :
    WellShaped r v

theorem WellShaped.shape {r : Registry} {v : Value} (h : v.WellShaped r) : v.HasOwnShape r := by
  cases h with
  | intro shape _ => exact shape

theorem WellShaped.element {r : Registry} {v e : Value} {es : List (Option Value)}
    (h : v.WellShaped r) (hes : v.elements? = some es) (he : some e ∈ es) : e.WellShaped r := by
  cases h with
  | intro _ elements => exact elements es hes e he

theorem wellShaped_string (r : Registry) (text : String) : (string text).WellShaped r :=
  .intro trivial fun es hes => by simp [elements?] at hes

mutual

/-- How deep arrays and collections are nested in a value. -/
def depth : Value → Nat
  | array _ elements => depthElements elements
  | collection _ elements => depthElements elements
  | _ => 0

/-- How deep a value with the elements is nested. -/
def depthElements : List (Option Value) → Nat
  | [] => 0
  | e :: es => max (depthOption e) (depthElements es)

/-- How deep a value with the element is nested. -/
def depthOption : Option Value → Nat
  | none => 0
  | some v => depth v + 1

end

theorem depth_lt_of_mem {e : Value} {es : List (Option Value)} (h : some e ∈ es) :
    e.depth < depthElements es := by
  induction es with
  | nil => simp at h
  | cons x rest ih =>
    rw [depthElements]
    rcases List.mem_cons.mp h with rfl | h
    · exact lt_of_lt_of_le (Nat.lt_succ_self _) (le_max_left _ _)
    · exact lt_of_lt_of_le (ih h) (le_max_right _ _)

/-- Elements are nested less deep. -/
theorem depth_lt_of_elements? {v e : Value} {es : List (Option Value)}
    (hes : v.elements? = some es) (h : some e ∈ es) : e.depth < v.depth := by
  cases v with
  | array _ _ | collection _ _ =>
    obtain rfl := Option.some.inj hes
    exact depth_lt_of_mem h
  | _ => simp [elements?] at hes

section Shape

variable {r : Registry} {v : Value}

/-- The class of arrays of objects is met only by arrays. -/
theorem exists_array_of_mem (hbase : r.ExtendsBase) (hi : r.RegularInheritance)
    (h : Builtin.anyArray r ∈ r.classHierarchy (v.erasure r)) :
    ∃ component es, v = array component es := by
  have harray := isArray_of_mem_classHierarchy hbase hi (isArray_array _) h
  cases v with
  | array component es => exact ⟨component, es, rfl⟩
  | _ => simp [erasure] at harray

/-- The class of strings is met only by strings. -/
theorem exists_string_of_mem (hbase : r.ExtendsBase) (hi : r.RegularInheritance)
    (hv : v.HasOwnShape r) (h : Builtin.stringClass r ∈ r.classHierarchy (v.erasure r)) :
    ∃ text, v = string text := by
  have h := hbase.eq_string_of_mem_classHierarchy hi h
  cases v with
  | string text => exact ⟨text, rfl⟩
  | boolean _ | byte _ | short _ | int _ | long _ | float _ | double _ | char _ =>
    simp only [erasure, hbase.wellKnown] at h
    exact absurd h (by decide)
  | array component _ =>
    have harray := isArray_array component
    rw [show component.array = _ from h] at harray
    exact absurd harray Bool.false_ne_true
  | enumConstant c _ =>
    have henum := hv.1
    rw [show Erasure.ofClass c = _ from h, hbase.isEnum_string] at henum
    exact absurd henum Bool.false_ne_true
  | collection c _ =>
    have hbelow : r.IsBelow (.ofClass c) (.ofClass r.wellKnown.collection) := hv
    rw [show Erasure.ofClass c = _ from h] at hbelow
    exact absurd (hbase.mem_stringLineage_of_isBelow hbelow) (hbase.not_mem_stringLineage (by simp))
  | object c _ => exact absurd (congrArg Erasure.element h) hv.1

/-- The class of collections is met only by collections. -/
theorem exists_collection_of_mem (hbase : r.ExtendsBase) (hv : v.HasOwnShape r)
    (h : Builtin.collectionInterface r ∈ r.classHierarchy (v.erasure r)) :
    ∃ c es, v = collection c es := by
  rcases hbase.isBelow_collection_of_mem_classHierarchy h with ⟨hplain, hbelow⟩
  cases v with
  | collection c es => exact ⟨c, es, rfl⟩
  | boolean _ | byte _ | short _ | int _ | long _ | float _ | double _ | char _ =>
    refine absurd (hbase.mem_scalarLineage_of_isBelow ?_ hbelow)
      (hbase.not_mem_scalarLineage (by simp))
    simp only [erasure, hbase.wellKnown]
    decide
  | string _ =>
    exact absurd (hbase.mem_stringLineage_of_isBelow hbelow) (hbase.not_mem_stringLineage (by simp))
  | array component _ => exact absurd (hplain.symm.trans (isArray_array component)) (by decide)
  | enumConstant _ _ => exact absurd hbelow hv.2
  | object _ _ => exact absurd hbelow hv.2.2

theorem mem_scalarLineage_of_ofErasure? (hbase : r.ExtendsBase) {e : Erasure} {kind : NumericKind}
    (h : NumericKind.ofErasure? r e = some kind) : e ∈ scalarLineage := by
  rcases hbase.boxed_eq_or_mem_scalarLineage e with hself | ⟨he, -⟩
  · rw [← hself, NumericKind.boxed_of_ofErasure? h]
    cases kind with
    | byte | short | int | long | float | double =>
      rw [NumericKind.box, hbase.wellKnown]
      decide
  · exact he

/-- Only numbers are of the classes of numbers. -/
theorem isSome_ofValue?_of_ofErasure? (hbase : r.ExtendsBase) (hv : v.HasOwnShape r)
    {kind : NumericKind} (h : NumericKind.ofErasure? r (v.erasure r) = some kind) :
    (AnyNumber.ofValue? v).isSome = true := by
  cases v with
  | byte _ | short _ | int _ | long _ | float _ | double _ => rfl
  | boolean _ | char _ | string _ =>
    have hnone : ∀ c ∈ [Bootstrap.wellKnown.boolean, Bootstrap.wellKnown.character,
        Bootstrap.wellKnown.string], NumericKind.ofErasure? bootstrap (.ofClass c) = none := by
      decide +kernel
    rw [NumericKind.ofErasure?_eq_bootstrap hbase, erasure, hbase.wellKnown,
      hnone _ (by simp)] at h
    simp at h
  | array component _ =>
    rw [erasure, NumericKind.ofErasure?_of_isArray (isArray_array component)] at h
    simp at h
  | enumConstant c _ =>
    have hscalar := mem_scalarLineage_of_ofErasure? hbase h
    exact absurd ((hbase.isEnum_of_mem_scalarLineage hscalar).symm.trans hv.1) (by decide)
  | collection c _ =>
    have hscalar := mem_scalarLineage_of_ofErasure? hbase h
    exact absurd (hbase.mem_scalarLineage_of_isBelow hscalar hv)
      (hbase.not_mem_scalarLineage (by simp))
  | object c _ =>
    rw [erasure, hv.2.1] at h
    simp at h

end Shape

end Value

/-! ## Targets -/

/--
A type that is an enum if dispatch takes it for one, and a collection if dispatch takes it for one:
not the class of enums itself, and not a primitive class below that of collections.
-/
structure Registry.IsProperTarget (r : Registry) (e : Erasure) : Prop where
  notEnums : e ≠ .ofClass r.wellKnown.enumClass
  notPrimitive : r.IsBelow e (.ofClass r.wellKnown.collection) → r.isPrimitive e = false

namespace TypeDescriptor

/-- A target that is proper, with all its elements at every depth. -/
structure Proper (r : Registry) (t : TypeDescriptor) : Prop where
  registry : t.registry = r
  proper : ∀ d, t.Contains d → r.IsProperTarget d.erasure

variable {r : Registry} {d : TypeDescriptor}

theorem registry_of_make {limit : Nat} {node : Option Node} {erasure : Option Erasure}
    {annotations : List Annotation} (h : make limit r node erasure annotations = some d) :
    d.registry = r := by
  cases erasure with
  | some e =>
    obtain rfl := Option.some.inj h
    rfl
  | none =>
    rcases exists_resolveOption_of_make h with ⟨found, -, rfl⟩
    rfl

/-- Arrays and collections have elements, which are described in the same registry. -/
theorem element?_cases {limit : Nat} {found : Option TypeDescriptor}
    (h : d.element? limit = some found) :
    (found = none ∧ d.isArray = false ∧ d.isCollection = false) ∨
      ∃ element, found = some element ∧ element.registry = d.registry := by
  simp only [element?] at h
  split at h
  · rcases Option.bind_eq_some_iff.mp h with ⟨component, -, h⟩
    rcases Option.bind_eq_some_iff.mp h with ⟨resolved, -, h⟩
    rcases Option.bind_eq_some_iff.mp h with ⟨element, hmake, h⟩
    exact .inr ⟨element, (Option.some.inj h).symm, registry_of_make hmake⟩
  · rename_i harray
    split at h
    · rcases Option.bind_eq_some_iff.mp h with ⟨view, -, h⟩
      rcases Option.bind_eq_some_iff.mp h with ⟨argument, -, h⟩
      rcases Option.bind_eq_some_iff.mp h with ⟨element, hmake, h⟩
      exact .inr ⟨element, (Option.some.inj h).symm, registry_of_make hmake⟩
    · rename_i hcollection
      exact .inl ⟨(Option.some.inj h).symm, by simpa using harray, by simpa using hcollection⟩

theorem HasElement.registry {element : TypeDescriptor} (h : d.HasElement element) :
    element.registry = d.registry := by
  rcases h with ⟨limit, h⟩
  rcases element?_cases h with ⟨hnone, -, -⟩ | ⟨e, he, hr⟩
  · simp at hnone
  · rw [Option.some.inj he, hr]

theorem Proper.element {element : TypeDescriptor} (h : d.Proper r)
    (helement : d.HasElement element) : element.Proper r where
  registry := helement.registry.trans h.registry
  proper e he := h.proper e (he.head helement)

theorem Proper.self (h : d.Proper r) : r.IsProperTarget d.erasure := h.proper d .refl

/-- Arrays and collections have elements, unless the walk to them is cut off. -/
theorem element?_ne_none {limit : Nat} (h : d.isArray = true ∨ d.isCollection = true) :
    d.element? limit ≠ some none := by
  intro hnone
  rcases element?_cases hnone with ⟨-, harray, hcollection⟩ | ⟨element, hsome, -⟩
  · rw [harray, hcollection] at h
    exact Bool.false_ne_true (or_self_iff.mp h)
  · simp at hsome

/-- Whatever meets the arrays of objects has elements. -/
theorem element?_ne_none_of_anyArray_mem (hbase : r.ExtendsBase) (hi : r.RegularInheritance)
    {limit : Nat} (hmem : Builtin.anyArray r ∈ r.classHierarchy d.erasure) :
    d.element? limit ≠ some none :=
  element?_ne_none (.inl (isArray_of_mem_classHierarchy hbase hi (isArray_array _) hmem))

/-- A proper target that meets the class of collections is a collection, and so it has elements. -/
theorem Proper.element?_ne_none_of_collection_mem (hbase : r.ExtendsBase) (h : d.Proper r)
    {limit : Nat} (hmem : Builtin.collectionInterface r ∈ r.classHierarchy d.erasure) :
    d.element? limit ≠ some none := by
  rcases hbase.isBelow_collection_of_mem_classHierarchy hmem with ⟨hplain, hbelow⟩
  have hcollection : r.isPrimitive (.ofClass r.wellKnown.collection) = false := by
    rw [hbase.wellKnown, Registry.isPrimitive,
      hbase.hasKind_eq .primitive (ExtendsBase.isBase_of_isSome (by decide +kernel))]
    decide +kernel
  refine element?_ne_none (.inr ?_)
  rw [isCollection, h.registry, isSubclass_iff_of_classes rfl hplain]
  exact .inr ⟨hcollection, h.self.notPrimitive hbelow, .inr hbelow⟩

/-- A proper target that meets the class of enums is an enum. -/
theorem Proper.isEnum_of_mem (hbase : r.ExtendsBase) (hi : r.RegularInheritance) (h : d.Proper r)
    (hmem : .ofClass r.wellKnown.enumClass ∈ r.classHierarchy d.erasure) :
    d.registry.isEnum d.erasure = true := by
  rw [h.registry]
  exact (hbase.eq_or_isEnum_of_mem_classHierarchy hi hmem).resolve_left h.self.notEnums

/-- A target that meets the box of a number holds numbers. -/
theorem isSome_ofErasure?_of_mem (hbase : r.ExtendsBase) (hi : r.RegularInheritance)
    (hr : d.registry = r) {box : ClassId} {kind : NumericKind}
    (hbox : (box, kind) ∈ NumericKind.boxes r) (hmem : .ofClass box ∈ r.classHierarchy d.erasure) :
    (NumericKind.ofErasure? d.registry d.erasure).isSome = true := by
  have hfinal : box ∈ r.wellKnown.finalClasses := by
    rw [NumericKind.eq_box_of_mem_boxes hbox]
    exact List.mem_cons_of_mem _ (NumericKind.box_mem_boxes r kind)
  rw [hr]
  exact NumericKind.isSome_ofErasure?_of_boxed hbox
    (boxed_eq_of_mem_classHierarchy hbase hi hfinal hmem)

/-- Strings have no elements, and are proper targets. -/
theorem proper_of_erasure_eq_string (hbase : r.ExtendsBase) (hr : d.registry = r)
    (h : d.erasure = .ofClass r.wellKnown.string) : d.Proper r where
  registry := hr
  proper e he := by
    rcases Relation.ReflTransGen.cases_head he with rfl | ⟨element, ⟨limit, helement⟩, -⟩
    · rw [h]
      constructor
      · rw [hbase.wellKnown]
        decide
      · intro hbelow
        exact absurd (hbase.mem_stringLineage_of_isBelow hbelow)
          (hbase.not_mem_stringLineage (by simp))
    · have harray : d.isArray = false := by
        rw [isArray, h]
        rfl
      have hcollection : d.isCollection = false := by
        rw [isCollection, hr, h]
        exact hbase.isSubclass_collection_string
      simp [element?, harray, hcollection] at helement

end TypeDescriptor

namespace ConversionService

variable {s : ConversionService} {ctx : ConversionContext} {source target : TypeDescriptor}
  {v : Value}

/-! ## Misfits -/

/-- The service does not fail by a misfit where it converts what is well shaped. -/
def SparesShaped (r : Registry) (ctx : ConversionContext) : Prop :=
  ∀ (x : Option Value) (target : TypeDescriptor), (∀ v, x = some v → v.WellShaped r) →
    target.Proper r → (ctx.convert x none target).Fits

section Chosen

variable {r : Registry}

theorem SparesShaped.elements (h : SparesShaped r ctx) (hv : v.WellShaped r)
    {es : List (Option Value)} (hes : v.elements? = some es) (ht : target.Proper r) :
    Builtin.FitsEach ctx es target :=
  fun x hx => h x target (fun _ hw => hv.element hes (hw ▸ hx)) ht

theorem SparesShaped.strings (h : SparesShaped r ctx) (ht : target.Proper r)
    (texts : List String) :
    Builtin.FitsEach ctx (texts.map fun text => some (.string text)) target := by
  intro x hx
  rcases List.mem_map.mp hx with ⟨text, -, rfl⟩
  refine h _ target (fun w hw => ?_) ht
  rw [← Option.some.inj hw]
  exact Value.wellShaped_string r text

/-- A built-in converter that is found for a well-shaped value and a proper target is for both. -/
theorem chosen_fits (hbase : r.ExtendsBase) (hi : r.RegularInheritance) (hctx : ctx.registry = r)
    (hspares : SparesShaped r ctx) (hv : v.WellShaped r)
    (hsource : source.erasure = v.erasure r) (ht : target.Proper r) {c : Converter}
    (hc : c ∈ Builtin.defaults r) (haccepts : c.accepts ctx source target = some true)
    {pair : ConvertiblePair} (hpair : pair ∈ c.pairs.getD [])
    (hfrom : pair.source ∈ r.classHierarchy source.erasure)
    (hto : pair.target ∈ r.classHierarchy target.erasure) :
    (c.run ctx (some v) source target).Fits := by
  rw [hsource] at hfrom
  have hjoin : (TypeDescriptor.ofErasure ctx.registry
      (Builtin.stringClass ctx.registry)).Proper r := by
    rw [hctx]
    exact TypeDescriptor.proper_of_erasure_eq_string hbase rfl rfl
  simp only [Builtin.defaults, List.mem_cons, List.not_mem_nil, or_false] at hc
  -- one case for each converter, in the order in which they are registered
  rcases hc with rfl | rfl | rfl | rfl | rfl | rfl | rfl | rfl | rfl | rfl | rfl | rfl
  · rcases List.mem_map.mp hpair with ⟨⟨box, kind⟩, hbox, rfl⟩
    rcases Value.exists_string_of_mem hbase hi hv.shape hfrom with ⟨text, rfl⟩
    exact Builtin.stringToNumber_fits
      (TypeDescriptor.isSome_ofErasure?_of_mem hbase hi ht.registry hbox hto)
  all_goals obtain rfl := List.mem_singleton.mp hpair
  · rcases Value.exists_string_of_mem hbase hi hv.shape hfrom with ⟨text, rfl⟩
    exact Builtin.stringToBoolean_fits
  · rcases Value.exists_string_of_mem hbase hi hv.shape hfrom with ⟨text, rfl⟩
    exact Builtin.stringToCharacter_fits
  · -- the condition has asked for the numbers that source and target hold
    simp only [Converter.accepts, Builtin.numberToNumber] at haccepts
    split at haccepts
    · rename_i kind kind' hsome hsome'
      rw [ht.registry, hsource] at hsome
      exact Builtin.numberToNumber_fits
        (Value.isSome_ofValue?_of_ofErasure? hbase hv.shape hsome) (by rw [hsome']; rfl)
    · simp at haccepts
  · exact Builtin.objectToString_fits
  · rcases Value.exists_string_of_mem hbase hi hv.shape hfrom with ⟨text, rfl⟩
    exact Builtin.stringToEnum_fits (ht.isEnum_of_mem hbase hi hto)
  · rcases Value.exists_string_of_mem hbase hi hv.shape hfrom with ⟨text, rfl⟩
    exact Builtin.stringToArray_fits
      (TypeDescriptor.element?_ne_none_of_anyArray_mem hbase hi hto)
      fun element helement => hspares.strings (ht.element helement)
  · rcases Value.exists_array_of_mem hbase hi hfrom with ⟨component, es, rfl⟩
    exact Builtin.arrayToString_fits (hspares.elements hv rfl hjoin)
  · rcases Value.exists_string_of_mem hbase hi hv.shape hfrom with ⟨text, rfl⟩
    exact Builtin.stringToCollection_fits (ht.element?_ne_none_of_collection_mem hbase hto)
      fun element helement => hspares.strings (ht.element helement)
  · rcases Value.exists_collection_of_mem hbase hv.shape hfrom with ⟨c, es, rfl⟩
    exact Builtin.collectionToString_fits (hspares.elements hv rfl hjoin)
  · rcases Value.exists_array_of_mem hbase hi hfrom with ⟨component, es, rfl⟩
    exact Builtin.arrayToCollection_fits (ht.element?_ne_none_of_collection_mem hbase hto)
      fun element helement => hspares.elements hv rfl (ht.element helement)
  · rcases Value.exists_collection_of_mem hbase hv.shape hfrom with ⟨c, es, rfl⟩
    exact Builtin.collectionToArray_fits
      (TypeDescriptor.element?_ne_none_of_anyArray_mem hbase hi hto)
      fun element helement => hspares.elements hv rfl (ht.element helement)

end Chosen

/-- A conversion does not fail by a misfit if those of elements do not. -/
theorem convertIn_fits (hbase : s.registry.ExtendsBase) (hi : s.registry.RegularInheritance)
    (hs : s.OnlyBuiltin) (hctx : ctx.registry = s.registry)
    (hspares : SparesShaped s.registry ctx) : ∀ (x : Option Value) (target : TypeDescriptor),
      (∀ v, x = some v → v.WellShaped s.registry) → target.Proper s.registry →
      (s.convertIn ctx x none target).Fits := by
  intro x target hx ht
  cases x with
  | none => exact fits_pure none
  | some v =>
    refine (fits_ofWalk _).bind fun chosen hchosen => ?_
    cases chosen with
    | none => exact fits_pure none
    | some c =>
      have hchosen := (gives_ofWalk_iff ..).mp hchosen
      rcases accepted_of_chooseConverter hs hctx hchosen with
        ⟨hc, haccepts, pair, hpair, hfrom, hto⟩ | ⟨rfl, -⟩
      · exact chosen_fits hbase hi hctx hspares (hx v rfl) rfl ht hc haccepts hpair hfrom hto
      · exact fits_pure _

/-- So it is however deep calls may go. -/
theorem sparesShaped_contextAt (hbase : s.registry.ExtendsBase)
    (hi : s.registry.RegularInheritance) (hs : s.OnlyBuiltin) (limit depth : Nat) :
    SparesShaped s.registry (s.contextAt limit depth) := by
  induction depth with
  | zero =>
    intro x target _ _ e h
    simp [contextAt, ExceptT.run_mk] at h
  | succ depth ih => exact convertIn_fits hbase hi hs (registry_contextAt ..) ih

/-! ## Texts -/

/-- A built-in converter into texts that is for a source. -/
inductive IsTextConverter (r : Registry) (source : Erasure) : Converter → Prop
  | object : IsTextConverter r source (Builtin.objectToString r)
  | array (h : Builtin.anyArray r ∈ r.classHierarchy source) :
    IsTextConverter r source (Builtin.arrayToString r)
  | collection (h : Builtin.collectionInterface r ∈ r.classHierarchy source) :
    IsTextConverter r source (Builtin.collectionToString r)

theorem IsTextConverter.accepts {r : Registry} {e : Erasure} {c : Converter}
    (h : IsTextConverter r e c) (ctx : ConversionContext) (source target : TypeDescriptor) :
    c.accepts ctx source target = some true := by
  cases h <;> rfl

/-- The candidates where strings are asked for are converters into texts. -/
theorem isTextConverter_of_mem_candidates (hbase : s.registry.ExtendsBase) (hs : s.OnlyBuiltin)
    {e : Erasure} {c : Converter} (hc : c ∈ s.converters.candidates s.registry e
      (.ofClass s.registry.wellKnown.string)) : IsTextConverter s.registry e c := by
  rcases exists_pair_of_mem_candidates hs hc with ⟨hbuiltin, pair, hpair, hfrom, hto⟩
  rcases textConverter_of_pair hbase hbuiltin hpair
    (hbase.mem_stringLineage_of_mem_classHierarchy hto) with rfl | ⟨rfl, hsource⟩ | ⟨rfl, hsource⟩
  · exact .object
  · exact .array (hsource ▸ hfrom)
  · exact .collection (hsource ▸ hfrom)

/-- A converter into texts is found for everything. -/
theorem exists_textConverter (source : TypeDescriptor) (hbase : s.registry.ExtendsBase)
    (hs : s.OnlyBuiltin)
    (hregistered : Builtin.objectToString s.registry ∈
      s.converters.atPair ⟨s.registry.object, Builtin.stringClass s.registry⟩)
    (hctx : ctx.registry = s.registry)
    (htarget : target.erasure = .ofClass s.registry.wellKnown.string) :
    ∃ c, s.chooseConverter ctx source target = some (some c) ∧
      IsTextConverter s.registry source.erasure c := by
  have hmem : Builtin.objectToString s.registry ∈ s.converters.candidates s.registry source.erasure
      (.ofClass s.registry.wellKnown.string) := by
    refine List.mem_flatMap.mpr ⟨_, object_mem_classHierarchy s.registry source.erasure, ?_⟩
    refine List.mem_flatMap.mpr ⟨_, ?_, hregistered⟩
    have hstring := boxed_mem_classHierarchy s.registry (.ofClass s.registry.wellKnown.string)
    rwa [hbase.boxed_of_mem_stringLineage hbase.string_mem_stringLineage] at hstring
  cases hfind : (s.converters.candidates s.registry source.erasure
      (.ofClass s.registry.wellKnown.string)).find? (Converters.stopsAt ctx source target) with
  | none =>
    have haccepts : (Builtin.objectToString s.registry).accepts ctx source target = some true := rfl
    have hpass := List.find?_eq_none.mp hfind _ hmem
    simp [Converters.stopsAt, haccepts] at hpass
  | some c =>
    have hc := isTextConverter_of_mem_candidates hbase hs (List.mem_of_find?_eq_some hfind)
    have hfound : s.converters.find ctx source target = some (some c) := by
      rw [Converters.find, Converters.firstAccepting_eq, hs.global, List.append_nil, hctx, htarget,
        hfind]
      simp [hc.accepts]
    refine ⟨c, ?_, hc⟩
    rw [chooseConverter, hfound]
    rfl

/-- The texts of elements are joined if each element has one. -/
theorem exists_joinElements_gives {es : List (Option Value)}
    (h : ∀ e, some e ∈ es → ∃ text, (ctx.convert (some e) none
      (.ofErasure ctx.registry (Builtin.stringClass ctx.registry))).Gives (some (.string text))) :
    ∃ text, (Builtin.joinElements ctx es).Gives text := by
  have hparts : ∃ parts, (es.mapM (Builtin.elementString ctx)).Gives parts := by
    refine exists_gives_mapM fun x hx => ?_
    cases x with
    | none => exact ⟨"null", (gives_pure_iff ..).mpr rfl⟩
    | some e =>
      rcases h e hx with ⟨text, htext⟩
      exact ⟨text, (gives_bind_iff ..).mpr ⟨_, htext, (gives_pure_iff ..).mpr rfl⟩⟩
  rcases hparts with ⟨parts, hparts⟩
  exact ⟨_, (gives_bind_iff ..).mpr ⟨parts, hparts, (gives_pure_iff ..).mpr rfl⟩⟩

/-- A converter into texts gives one if the elements, if there are any, can be joined. -/
theorem IsTextConverter.exists_gives {r : Registry} (hbase : r.ExtendsBase)
    (hi : r.RegularInheritance) (hv : v.HasOwnShape r)
    (hjoin : ∀ es, v.elements? = some es → ∃ text, (Builtin.joinElements ctx es).Gives text)
    {c : Converter} (hc : IsTextConverter r (v.erasure r) c) (source target : TypeDescriptor) :
    ∃ text, (c.run ctx (some v) source target).Gives (some (.string text)) := by
  cases hc with
  | object => exact ⟨_, (gives_pure_iff ..).mpr rfl⟩
  | array hfrom =>
    rcases Value.exists_array_of_mem hbase hi hfrom with ⟨component, es, rfl⟩
    rcases hjoin es rfl with ⟨text, htext⟩
    exact ⟨_, (gives_bind_iff ..).mpr ⟨text, htext, (gives_pure_iff ..).mpr rfl⟩⟩
  | collection hfrom =>
    rcases Value.exists_collection_of_mem hbase hv hfrom with ⟨c, es, rfl⟩
    rcases hjoin es rfl with ⟨text, htext⟩
    exact ⟨_, (gives_bind_iff ..).mpr ⟨text, htext, (gives_pure_iff ..).mpr rfl⟩⟩

/-- A well-shaped value has a text wherever calls may go as deep as the value is nested. -/
theorem convertIn_string_gives (hbase : s.registry.ExtendsBase)
    (hi : s.registry.RegularInheritance) (hs : s.OnlyBuiltin)
    (hregistered : Builtin.objectToString s.registry ∈
      s.converters.atPair ⟨s.registry.object, Builtin.stringClass s.registry⟩)
    (hv : v.WellShaped s.registry) {limit depth : Nat} (hdepth : v.depth ≤ depth)
    (htarget : target.erasure = .ofClass s.registry.wellKnown.string) :
    ∃ text, (s.convertIn (s.contextAt limit depth) (some v) none target).Gives
      (some (.string text)) := by
  induction hv generalizing depth target with
  | @intro v hshape helements ih =>
    have hctx := registry_contextAt s limit depth
    have hjoin : ∀ es, v.elements? = some es →
        ∃ text, (Builtin.joinElements (s.contextAt limit depth) es).Gives text := by
      intro es hes
      refine exists_joinElements_gives fun e he => ?_
      have hlt := Value.depth_lt_of_elements? hes he
      obtain ⟨depth, rfl⟩ : ∃ k, depth = k + 1 := ⟨depth - 1, by omega⟩
      rw [hctx]
      exact ih es hes e he (by omega) rfl
    rcases exists_textConverter (s.descriptor (v.erasure s.registry)) hbase hs hregistered hctx
      htarget with ⟨c, hchosen, hc⟩
    rcases hc.exists_gives hbase hi hshape hjoin _ target with ⟨text, hrun⟩
    exact ⟨text, (gives_bind_iff ..).mpr ⟨some c, (gives_ofWalk_iff ..).mpr hchosen, hrun⟩⟩

/--
Well-shaped values and proper targets never meet a converter that is not for them.  Where strings
are asked for, every such value has one, within any limit that is no less than its depth.
-/
theorem convert_fits {r : Registry} (hbase : r.ExtendsBase) (hi : r.RegularInheritance)
    {config : ConversionConfig} (hs : (bare r config).addDefaults = .ok s) (hv : v.WellShaped r)
    (ht : target.Proper r) :
    (∀ limit, (s.convert limit (some v) target).Fits) ∧
    (target.erasure = .ofClass r.wellKnown.string → ∀ limit, v.depth ≤ limit →
      ∃ text, (s.convert limit (some v) target).Gives (some (.string text))) := by
  rcases onlyBuiltin_of_addDefaults hs with ⟨rfl, honly⟩
  have hregistered : Builtin.objectToString s.registry ∈
      s.converters.atPair ⟨s.registry.object, Builtin.stringClass s.registry⟩ := by
    refine mem_atPair_of_foldlM hs (.inr ⟨?_, List.mem_cons_self⟩)
    simp [bare, Builtin.defaults]
  constructor
  · intro limit
    refine convertIn_fits hbase hi honly (registry_contextAt ..)
      (sparesShaped_contextAt hbase hi honly limit limit) (some v) target ?_ ht
    rintro w ⟨⟩
    exact hv
  · intro htarget limit hlimit
    exact convertIn_string_gives hbase hi honly hregistered hv hlimit htarget

/-- A list of a number, null and an array of strings. -/
def nestedList : Value :=
  .collection Bootstrap.wellKnown.arrayList
    [some (.int 1), none,
      some (.array (.ofClass Bootstrap.wellKnown.string) [some (.string "a")])]

theorem wellShaped_nestedList : nestedList.WellShaped bootstrap := by
  have hbelow : bootstrap.IsBelow (.ofClass Bootstrap.wellKnown.arrayList)
      (.ofClass Bootstrap.wellKnown.collection) := by
    have hreaches : bootstrap.reaches (.ofClass Bootstrap.wellKnown.collection) 16
        [.ofClass Bootstrap.wellKnown.arrayList] [] = true := by decide +kernel
    rcases exists_of_reaches hreaches with ⟨e, he, hbelow⟩
    exact List.mem_singleton.mp he ▸ hbelow
  refine .intro hbelow fun es hes e he => ?_
  obtain rfl := Option.some.inj hes
  simp only [List.mem_cons, Option.some.injEq, reduceCtorEq, false_or, List.not_mem_nil,
    or_false] at he
  rcases he with rfl | rfl
  · exact .intro trivial fun es hes => by simp [Value.elements?] at hes
  · refine .intro trivial fun es hes e he => ?_
    obtain rfl := Option.some.inj hes
    obtain rfl : e = .string "a" := by simpa using he
    exact Value.wellShaped_string bootstrap "a"

/-- The list has a text wherever calls may go two deep. -/
theorem convert_fits_nestedList :
    ∃ s, (bare bootstrap {}).addDefaults = .ok s ∧
      (∀ limit, (s.convert limit (some nestedList)
        (.ofErasure bootstrap (Builtin.stringClass bootstrap))).Fits) ∧
      ∀ limit, 2 ≤ limit → ∃ text, (s.convert limit (some nestedList)
        (.ofErasure bootstrap (Builtin.stringClass bootstrap))).Gives (some (.string text)) := by
  rcases exists_addDefaults bootstrap {} with ⟨s, hs⟩
  have hproper := TypeDescriptor.proper_of_erasure_eq_string extendsBase_bootstrap
    (d := .ofErasure bootstrap (Builtin.stringClass bootstrap)) rfl rfl
  rcases convert_fits extendsBase_bootstrap (regularInheritance_of_check (by decide +kernel)) hs
    wellShaped_nestedList hproper with ⟨hfits, htext⟩
  exact ⟨s, hs, hfits, htext rfl⟩

/-! ## Primitive classes -/

/-- A primitive class `P` that implements `Collection<String>`. -/
def primitiveCollection : Registry :=
  bootstrap.push
    { name := "P", kind := .primitive,
      interfaces := [.parameterized Bootstrap.wellKnown.collection
        [.ofClass Bootstrap.wellKnown.string] none] }

/--
An object of a primitive class is taken for a number or a collection, and so is a primitive target,
though subclassing relates neither to collections.
-/
theorem primitives_misfit :
    primitiveCollection.ExtendsBase ∧ primitiveCollection.RegularInheritance ∧
      (∀ c ∈ [Bootstrap.wellKnown.primInt, ⟨37⟩],
        c ∉ primitiveCollection.wellKnown.finalClasses ∧ c ≠ Bootstrap.wellKnown.enumClass ∧
          primitiveCollection.isSubclass (.ofClass Bootstrap.wellKnown.collection) (.ofClass c) =
            false) ∧
      ∃ s, (bare primitiveCollection {}).addDefaults = .ok s ∧
        ¬(s.convert 40 (some (.object Bootstrap.wellKnown.primInt ⟨0, .text "x"⟩))
          (.ofErasure primitiveCollection (.ofClass Bootstrap.wellKnown.long))).Fits ∧
        ¬(s.convert 40 (some (.string "a")) (.ofErasure primitiveCollection (.ofClass ⟨37⟩))).Fits ∧
        ¬(s.convert 40 (some (.object ⟨37⟩ ⟨0, .text "x"⟩))
          (.ofErasure primitiveCollection (Builtin.stringClass primitiveCollection))).Fits := by
  have hcheck : ((bare primitiveCollection {}).addDefaults.toOption.any fun s =>
      !decide (s.convert 40 (some (.object Bootstrap.wellKnown.primInt ⟨0, .text "x"⟩))
        (.ofErasure primitiveCollection (.ofClass Bootstrap.wellKnown.long))).Fits &&
      (!decide (s.convert 40 (some (.string "a"))
        (.ofErasure primitiveCollection (.ofClass ⟨37⟩))).Fits &&
      !decide (s.convert 40 (some (.object ⟨37⟩ ⟨0, .text "x"⟩))
        (.ofErasure primitiveCollection (Builtin.stringClass primitiveCollection))).Fits)) =
      true := by decide +kernel
  rcases exists_addDefaults primitiveCollection {} with ⟨s, hs⟩
  rw [hs, Except.toOption, Option.any_some] at hcheck
  simp only [Bool.and_eq_true, Bool.not_eq_true', decide_eq_false_iff_not] at hcheck
  exact ⟨extendsBase_bootstrap.push _, regularInheritance_of_check (by decide +kernel),
    by decide +kernel, s, hs, hcheck⟩

end ConversionService

end TypeConversion
