import TypeConversion.Conversion.Service
import TypeConversion.Proofs.Conversion.CollectionClass
import TypeConversion.Proofs.Conversion.Results
import TypeConversion.Proofs.Dispatch.ChangeLog
import TypeConversion.Proofs.Dispatch.Hierarchy

/-!
# Conversions are type-sound

What a service with built-in converters gives is assignable to the target, and the elements that it
builds are assignable to the element type of the target.

The hierarchies decide which converter is chosen, and with it what the target may be: a text only
comes from a converter for strings, and nothing but the string class meets those.  An array takes
the erasure of the elements, which is one dimension below that of the target; a collection is built
as a class that is chosen for the target.

**Results**

* `chosen_of_chooseConverter`: which converter a service uses, and for which target;
* `isAssignable_of_builtin`: what each of the built-in converters gives is assignable;
* `convert_sound`: so it is for every conversion, and for the elements that are built;
* `overlong_not_assignable`: it need not be where elements have the most dimensions there may be.
-/

namespace TypeConversion

open Attempt Registry

namespace ConversionService

/-- The converters between strings, arrays and collections that build arrays or collections. -/
def elementwise (r : Registry) : List Converter :=
  [Builtin.stringToArray r, Builtin.stringToCollection r, Builtin.arrayToCollection r,
    Builtin.collectionToArray r]

/-- A service whose converters are built-in ones, each at pairs that it declares. -/
structure OnlyBuiltin (s : ConversionService) : Prop where
  atPair : ∀ pair, ∀ c ∈ s.converters.atPair pair,
    c ∈ Builtin.defaults s.registry ∧ pair ∈ c.pairs.getD []
  global : s.converters.global = []

/-! ## The default service -/

/-- Registering more built-in converters leaves a service with nothing but these. -/
theorem onlyBuiltin_of_foldlM {s s' : ConversionService} {cs : List Converter}
    (hs : s.OnlyBuiltin) (hcs : ∀ c ∈ cs, c ∈ Builtin.defaults s.registry ∧ c.pairs.isSome)
    (h : cs.foldlM add s = .ok s') : s'.registry = s.registry ∧ s'.OnlyBuiltin := by
  induction cs generalizing s with
  | nil =>
    obtain rfl := Except.ok.inj h
    exact ⟨rfl, hs⟩
  | cons c rest ih =>
    rw [List.foldlM_cons] at h
    rcases hcs c List.mem_cons_self with ⟨hbuiltin, hpairs⟩
    cases hadd : s.converters.add c with
    | error e => simp [add, hadd, bind, Except.bind] at h
    | ok converters =>
      have happly : (ConverterChange.add c).apply s.converters = converters := by
        rw [ConverterChange.apply, hadd]
      have hs' : OnlyBuiltin { s with converters := converters } := by
        constructor
        · intro pair d hd
          rw [← happly, Converters.atPair_apply] at hd
          rcases List.mem_append.mp hd with hd | hd
          · exact hs.atPair pair d hd
          · rcases List.mem_map.mp hd with ⟨p, hp, rfl⟩
            rcases List.mem_filter.mp hp with ⟨hmem, heq⟩
            obtain rfl : p = pair := by simpa using heq
            exact ⟨hbuiltin, hmem⟩
        · have hglobal := Converters.global_apply s.converters (.add c)
          rw [happly] at hglobal
          have hnone : c.pairs ≠ none := Option.isSome_iff_ne_none.mp hpairs
          simpa [hnone, hs.global] using hglobal
      simp only [add, hadd, bind, Except.bind] at h
      have hrest := ih hs' (fun d hd => hcs d (List.mem_cons_of_mem _ hd)) h
      exact hrest

/-- The service with the built-in converters has nothing but these. -/
theorem onlyBuiltin_of_addDefaults {r : Registry} {config : ConversionConfig}
    {s : ConversionService} (h : (bare r config).addDefaults = .ok s) :
    s.registry = r ∧ s.OnlyBuiltin := by
  refine onlyBuiltin_of_foldlM (s := bare r config) ⟨?_, rfl⟩ ?_ h
  · intro pair c hc
    simp [bare, Converters.empty, Converters.atPair] at hc
  · intro c hc
    refine ⟨hc, ?_⟩
    simp only [bare, Builtin.defaults, List.mem_cons, List.not_mem_nil, or_false] at hc
    rcases hc with rfl | rfl | rfl | rfl | rfl | rfl | rfl | rfl | rfl | rfl | rfl | rfl
    all_goals rfl

/-- Converters that are registered are there for each of their pairs, and none is lost. -/
theorem mem_atPair_of_foldlM {s s' : ConversionService} {cs : List Converter}
    (h : cs.foldlM add s = .ok s') {c : Converter} {pair : ConvertiblePair}
    (hc : c ∈ s.converters.atPair pair ∨ c ∈ cs ∧ pair ∈ c.pairs.getD []) :
    c ∈ s'.converters.atPair pair := by
  induction cs generalizing s with
  | nil =>
    obtain rfl := Except.ok.inj h
    simpa using hc
  | cons d rest ih =>
    rw [List.foldlM_cons] at h
    cases hadd : s.converters.add d with
    | error e => simp [add, hadd, bind, Except.bind] at h
    | ok converters =>
      have hentries := Converters.atPair_apply s.converters (.add d) pair
      rw [ConverterChange.apply, hadd] at hentries
      simp only [add, hadd, bind, Except.bind] at h
      refine ih h ?_
      rcases hc with hc | ⟨hc, hpair⟩
      · exact .inl (hentries ▸ List.mem_append_left _ hc)
      · rcases List.mem_cons.mp hc with rfl | hc
        · refine .inl (hentries ▸ List.mem_append_right _ ?_)
          exact List.mem_map.mpr ⟨pair, List.mem_filter.mpr ⟨hpair, by simp⟩, rfl⟩
        · exact .inr ⟨hc, hpair⟩

/-- The built-in converters can all be registered. -/
theorem exists_addDefaults (r : Registry) (config : ConversionConfig) :
    ∃ s, (bare r config).addDefaults = .ok s :=
  ⟨_, rfl⟩

/-- What is checked of the service with the built-in converters holds of it. -/
theorem exists_of_addDefaults_any {r : Registry} {config : ConversionConfig}
    {check : ConversionService → Bool}
    (h : (bare r config).addDefaults.toOption.any check = true) :
    ∃ s, (bare r config).addDefaults = .ok s ∧ check s = true := by
  rcases exists_addDefaults r config with ⟨s, hs⟩
  rw [hs, Except.toOption, Option.any_some] at h
  exact ⟨s, hs, h⟩

/-! ## The chosen converter -/

/-- The candidates are built-in converters at pairs that both hierarchies meet. -/
theorem exists_pair_of_mem_candidates {s : ConversionService} (hs : s.OnlyBuiltin)
    {source target : Erasure} {c : Converter}
    (h : c ∈ s.converters.candidates s.registry source target) :
    c ∈ Builtin.defaults s.registry ∧ ∃ pair ∈ c.pairs.getD [],
      pair.source ∈ s.registry.classHierarchy source ∧
      pair.target ∈ s.registry.classHierarchy target := by
  simp only [Converters.candidates, List.mem_flatMap] at h
  rcases h with ⟨a, ha, b, hb, hc⟩
  rcases hs.atPair ⟨a, b⟩ c hc with ⟨hbuiltin, hpair⟩
  exact ⟨hbuiltin, ⟨a, b⟩, hpair, ha, hb⟩

/-- The converter that a service uses, and what source and target have to be for it. -/
theorem accepted_of_chooseConverter {s : ConversionService} (hs : s.OnlyBuiltin)
    {ctx : ConversionContext} (hctx : ctx.registry = s.registry) {source target : TypeDescriptor}
    {c : Converter} (h : s.chooseConverter ctx source target = some (some c)) :
    (c ∈ Builtin.defaults s.registry ∧ c.accepts ctx source target = some true ∧
      ∃ pair ∈ c.pairs.getD [], pair.source ∈ s.registry.classHierarchy source.erasure ∧
        pair.target ∈ s.registry.classHierarchy target.erasure) ∨
    (c = .passThrough ∧ s.registry.isAssignable target.erasure source.erasure = true) := by
  rcases Option.bind_eq_some_iff.mp h with ⟨found, hfound, h⟩
  cases found with
  | none =>
    dsimp only at h
    split at h
    · rename_i hfallback
      obtain rfl : Converter.passThrough = c := by simpa using h
      exact .inr ⟨rfl, (Bool.and_eq_true_iff.mp hfallback).2⟩
    · simp at h
  | some d =>
    obtain rfl : d = c := by simpa using h
    rw [Converters.find, Converters.firstAccepting_eq, hs.global, List.append_nil] at hfound
    split at hfound
    · simp at hfound
    · rename_i d' hd'
      rcases Option.map_eq_some_iff.mp hfound with ⟨accepted, haccepts, heq⟩
      obtain rfl : d' = d := Option.some.inj heq
      have hstops := List.find?_some hd'
      have haccepted : accepted = true := by simpa [Converters.stopsAt, haccepts] using hstops
      have hmem := List.mem_of_find?_eq_some hd'
      rw [hctx] at hmem
      rcases exists_pair_of_mem_candidates hs hmem with ⟨hbuiltin, hpair⟩
      exact .inl ⟨hbuiltin, haccepted ▸ haccepts, hpair⟩

/-- The converter that a service uses, and what the target has to be for it. -/
theorem chosen_of_chooseConverter {s : ConversionService} (hs : s.OnlyBuiltin)
    {ctx : ConversionContext} (hctx : ctx.registry = s.registry) {source target : TypeDescriptor}
    {c : Converter} (h : s.chooseConverter ctx source target = some (some c)) :
    (c ∈ Builtin.defaults s.registry ∧
      ∃ pair ∈ c.pairs.getD [], pair.target ∈ s.registry.classHierarchy target.erasure) ∨
    (c = .passThrough ∧ s.registry.isAssignable target.erasure source.erasure = true) := by
  rcases accepted_of_chooseConverter hs hctx h with ⟨hc, -, pair, hpair, -, hto⟩ | hpass
  · exact .inl ⟨hc, pair, hpair, hto⟩
  · exact .inr hpass

/-! ## Soundness -/

@[simp] theorem registry_contextAt (s : ConversionService) (limit depth : Nat) :
    (s.contextAt limit depth).registry = s.registry := by
  cases depth <;> rfl

@[simp] theorem limit_contextAt (s : ConversionService) (limit depth : Nat) :
    (s.contextAt limit depth).limit = limit := by
  cases depth <;> rfl

/-- All elements that are there are assignable to the element type of the target. -/
def ElementsFit (s : ConversionService) (limit : Nat) (target : TypeDescriptor)
    (result : Value) : Prop :=
  ∃ element elements, target.element? limit = some (some element) ∧
    result.elements? = some elements ∧
    ∀ e, some e ∈ elements →
      s.registry.isAssignable element.erasure (e.erasure s.registry) = true

/--
A result that is of the type of the elements of the array that it is to be, since that has the most
dimensions there may be.
-/
def IsOversized (target : TypeDescriptor) (result : Value) : Prop :=
  ∃ element, target.isArray = true ∧ target.HasElement element ∧ element.erasure.dims = 255 ∧
    result.erasure target.registry = element.erasure

section Soundness

variable {s : ConversionService} {ctx : ConversionContext} {target : TypeDescriptor}
  {result : Value}

/-- An array of the elements of an array is assignable to it. -/
theorem isAssignable_of_buildsArray (ht : target.Consistent s.registry)
    (harray : target.isArray = true) (h : Builtin.BuildsArray ctx target result) :
    s.registry.isAssignable target.erasure (result.erasure s.registry) = true ∨
      IsOversized target result := by
  rcases h with ⟨element, elements, helement, rfl, -⟩
  have helement : target.HasElement element := ⟨ctx.limit, helement⟩
  rw [Value.erasure]
  by_cases hdims : element.erasure.dims = 255
  · refine .inr ⟨element, harray, helement, hdims, ?_⟩
    simp [Value.erasure, Erasure.array, Erasure.array?, hdims]
  · rw [ht.array_element harray helement hdims]
    exact .inl (isAssignable_self _ _)

theorem isAssignable_of_buildsCollection (hbase : s.registry.ExtendsBase)
    (hctx : ctx.registry = s.registry) (hsub : ¬s.registry.IsSubInterface target.erasure)
    (h : Builtin.BuildsCollection ctx target result) :
    s.registry.isAssignable target.erasure (result.erasure s.registry) = true := by
  rcases h with ⟨element, c, elements, -, hc, rfl, -⟩
  rw [hctx] at hc
  exact isAssignable_of_isSubclass ((hbase.isSubclass_collectionClass_iff hc).mpr hsub)

/-- Strings and boxes are assignable wherever their classes are met in the hierarchy. -/
theorem isAssignable_of_mem_finalClasses (hbase : s.registry.ExtendsBase)
    (hi : s.registry.RegularInheritance) {f : ClassId}
    (hf : f ∈ s.registry.wellKnown.finalClasses)
    (hmem : .ofClass f ∈ s.registry.classHierarchy target.erasure) :
    s.registry.isAssignable target.erasure (.ofClass f) = true :=
  hbase.isAssignable_of_boxed (boxed_eq_of_mem_classHierarchy hbase hi hf hmem)

/-- Numbers of the kind that a type holds are assignable to it. -/
theorem isAssignable_of_kind (hbase : s.registry.ExtendsBase) (ht : target.Consistent s.registry)
    (h : ∃ kind, NumericKind.ofErasure? target.registry target.erasure = some kind ∧
      result.erasure target.registry = .ofClass (kind.box target.registry)) :
    s.registry.isAssignable target.erasure (result.erasure s.registry) = true := by
  rcases h with ⟨kind, hkind, hresult⟩
  rw [ht.registry] at hkind hresult
  rw [hresult]
  exact hbase.isAssignable_of_boxed (NumericKind.boxed_of_ofErasure? hkind)

/-- What a built-in converter gives is assignable to a target that it is found for. -/
theorem isAssignable_of_builtin (hbase : s.registry.ExtendsBase)
    (hi : s.registry.RegularInheritance) (hctx : ctx.registry = s.registry)
    (ht : target.Consistent s.registry) (hsub : ¬s.registry.IsSubInterface target.erasure)
    {c : Converter} (hc : c ∈ Builtin.defaults s.registry) {pair : ConvertiblePair}
    (hpair : pair ∈ c.pairs.getD [])
    (hmem : pair.target ∈ s.registry.classHierarchy target.erasure)
    {value : Option Value} {source : TypeDescriptor}
    (hrun : (c.run ctx value source target).Gives (some result)) :
    s.registry.isAssignable target.erasure (result.erasure s.registry) = true ∨
      IsOversized target result := by
  have harray : Builtin.anyArray s.registry ∈ s.registry.classHierarchy target.erasure →
      target.isArray = true :=
    isArray_of_mem_classHierarchy hbase hi (isArray_array _)
  have htext : pair.target = .ofClass s.registry.wellKnown.string →
      (∃ text, result = .string text) →
      s.registry.isAssignable target.erasure (result.erasure s.registry) = true := by
    rintro hstring ⟨text, rfl⟩
    exact isAssignable_of_mem_finalClasses hbase hi List.mem_cons_self (hstring ▸ hmem)
  simp only [Builtin.defaults, List.mem_cons, List.not_mem_nil, or_false] at hc
  -- one case for each converter, in the order in which they are registered
  rcases hc with rfl | rfl | rfl | rfl | rfl | rfl | rfl | rfl | rfl | rfl | rfl | rfl
  · exact .inl (isAssignable_of_kind hbase ht (Builtin.stringToNumber_gives hrun))
  · rcases Builtin.stringToBoolean_gives hrun with ⟨b, rfl⟩
    obtain rfl := List.mem_singleton.mp hpair
    exact .inl (isAssignable_of_mem_finalClasses hbase hi
      (by simp [WellKnown.finalClasses, WellKnown.boxes]) hmem)
  · rcases Builtin.stringToCharacter_gives hrun with ⟨c, rfl⟩
    obtain rfl := List.mem_singleton.mp hpair
    exact .inl (isAssignable_of_mem_finalClasses hbase hi
      (by simp [WellKnown.finalClasses, WellKnown.boxes]) hmem)
  · exact .inl (isAssignable_of_kind hbase ht (Builtin.numberToNumber_gives hrun))
  · obtain rfl := List.mem_singleton.mp hpair
    rcases Builtin.objectToString_gives hrun with ⟨v, -, rfl⟩
    exact .inl (htext rfl ⟨_, rfl⟩)
  · have hresult := (Builtin.stringToEnum_gives hrun).2
    rw [ht.registry] at hresult
    rw [hresult]
    exact .inl (isAssignable_self _ _)
  · obtain rfl := List.mem_singleton.mp hpair
    exact isAssignable_of_buildsArray ht (harray hmem) (Builtin.stringToArray_gives hrun)
  · obtain rfl := List.mem_singleton.mp hpair
    rcases Builtin.arrayToString_gives hrun with ⟨_, _, text, -, -, rfl⟩
    exact .inl (htext rfl ⟨text, rfl⟩)
  · exact .inl (isAssignable_of_buildsCollection hbase hctx hsub
      (Builtin.stringToCollection_gives hrun))
  · obtain rfl := List.mem_singleton.mp hpair
    rcases Builtin.collectionToString_gives hrun with ⟨_, _, text, -, -, rfl⟩
    exact .inl (htext rfl ⟨text, rfl⟩)
  · exact .inl (isAssignable_of_buildsCollection hbase hctx hsub
      (Builtin.arrayToCollection_gives hrun))
  · obtain rfl := List.mem_singleton.mp hpair
    exact isAssignable_of_buildsArray ht (harray hmem) (Builtin.collectionToArray_gives hrun)

/-- What is given for a value is given by the converter that is chosen. -/
theorem exists_chosen_of_convertIn {v : Value}
    (h : (s.convertIn ctx (some v) none target).Gives (some result)) :
    ∃ c, s.chooseConverter ctx (s.descriptor (v.erasure s.registry)) target = some (some c) ∧
      (c.run ctx (some v) (s.descriptor (v.erasure s.registry)) target).Gives (some result) := by
  rcases (gives_bind_iff ..).mp h with ⟨chosen, hchosen, hrun⟩
  rw [gives_ofWalk_iff] at hchosen
  cases chosen with
  | none => simp [gives_pure_iff] at hrun
  | some c => exact ⟨c, hchosen, hrun⟩

/-- What a conversion gives is assignable to its target. -/
theorem convertIn_assignable (hbase : s.registry.ExtendsBase)
    (hi : s.registry.RegularInheritance) (hs : s.OnlyBuiltin) (hctx : ctx.registry = s.registry)
    (ht : target.Consistent s.registry) (ho : target.Ordinary) {value : Option Value}
    (h : (s.convertIn ctx value none target).Gives (some result)) :
    s.registry.isAssignable target.erasure (result.erasure s.registry) = true := by
  cases value with
  | none => simp [convertIn, gives_pure_iff] at h
  | some v =>
    rcases exists_chosen_of_convertIn h with ⟨c, hchosen, hrun⟩
    rcases chosen_of_chooseConverter hs hctx hchosen with ⟨hc, pair, hpair, hmem⟩ | ⟨rfl, hpass⟩
    · have hsub := ho.noSubInterface target .refl
      rw [ht.registry] at hsub
      rcases isAssignable_of_builtin hbase hi hctx ht hsub hc hpair hmem hrun with
        hassignable | ⟨element, harray, helement, hdims, -⟩
      · exact hassignable
      · exact absurd hdims (ho.dims target element .refl helement harray)
    · -- values that pass through are what they were
      have hresult : v = result := by
        simpa [Converter.passThrough, gives_pure_iff] using hrun
      rw [← hresult]
      exact hpass

/-- What is found for an element on the way is assignable to the element type. -/
theorem isAssignable_of_converted (hbase : s.registry.ExtendsBase)
    (hi : s.registry.RegularInheritance) (hs : s.OnlyBuiltin) {limit depth : Nat}
    (ht : target.Consistent s.registry) (ho : target.Ordinary) {x : Option Value}
    (h : ((s.contextAt limit depth).convert x none target).Gives (some result)) :
    s.registry.isAssignable target.erasure (result.erasure s.registry) = true := by
  cases depth with
  | zero => simp [contextAt, Gives, ExceptT.run_mk] at h
  | succ depth => exact convertIn_assignable hbase hi hs (registry_contextAt ..) ht ho h

/-- The elements of an array that is built are assignable to the element type. -/
theorem elements_of_buildsArray (hbase : s.registry.ExtendsBase)
    (hi : s.registry.RegularInheritance) (hs : s.OnlyBuiltin) {limit depth : Nat}
    (ht : target.Consistent s.registry) (ho : target.Ordinary)
    (h : Builtin.BuildsArray (s.contextAt limit depth) target result) :
    ElementsFit s limit target result := by
  rcases h with ⟨element, elements, helement, rfl, hconverted⟩
  rw [limit_contextAt] at helement
  have hhas : target.HasElement element := ⟨limit, helement⟩
  refine ⟨element, elements, helement, rfl, fun e he => ?_⟩
  rcases hconverted e he with ⟨x, hx⟩
  exact isAssignable_of_converted hbase hi hs (ht.element hhas) (ho.element hhas) hx

/-- The elements of a collection that is built are assignable to the element type. -/
theorem elements_of_buildsCollection (hbase : s.registry.ExtendsBase)
    (hi : s.registry.RegularInheritance) (hs : s.OnlyBuiltin) {limit depth : Nat}
    (ht : target.Consistent s.registry) (ho : target.Ordinary)
    (h : Builtin.BuildsCollection (s.contextAt limit depth) target result) :
    ElementsFit s limit target result := by
  rcases h with ⟨element, c, elements, helement, hc, rfl, hkind⟩
  rw [limit_contextAt] at helement hkind
  have hhas : target.HasElement element := ⟨limit, helement⟩
  refine ⟨element, elements, helement, rfl, fun e he => ?_⟩
  rcases hkind with hconverted | ⟨hdefinite, hstrings⟩
  · rcases hconverted e he with ⟨x, hx⟩
    exact isAssignable_of_converted hbase hi hs (ht.element hhas) (ho.element hhas) hx
  · -- no collection is built for an array
    have harray : target.isArray = false := by
      cases htarget : target.isArray with
      | false => rfl
      | true =>
        have hnone : target.erasure.asClass? = none := by
          rw [Erasure.asClass?, show target.erasure.isArray = true from htarget, if_pos rfl]
        simp [collectionClass, hnone] at hc
    rcases hstrings e he with ⟨text, rfl⟩
    rw [ht.erasure_eq_object harray helement hdefinite]
    exact hbase.isAssignable_object_string

/--
Whatever a service with built-in converters makes of a value is assignable to the target; and the
elements of what it builds are assignable to the element type of the target.
-/
theorem convert_sound (hbase : s.registry.ExtendsBase) (hi : s.registry.RegularInheritance)
    (hs : s.OnlyBuiltin) {made limit : Nat} (ht : target.IsMade s.registry made)
    (ho : target.Ordinary) {v : Value}
    (h : (s.convert limit (some v) target).Gives (some result)) :
    s.registry.isAssignable target.erasure (result.erasure s.registry) = true ∧
    ∀ c ∈ elementwise s.registry,
      s.getConverter limit (s.descriptor (v.erasure s.registry)) target = some (some c) →
      ElementsFit s limit target result := by
  have ht := ht.consistent
  change (s.convertIn (s.contextAt limit limit) (some v) none target).Gives (some result) at h
  refine ⟨convertIn_assignable hbase hi hs (registry_contextAt ..) ht ho h, ?_⟩
  intro c hc hchosen
  rcases (gives_bind_iff ..).mp h with ⟨chosen, hchosen', hrun⟩
  rw [gives_ofWalk_iff] at hchosen'
  obtain rfl : some c = chosen := Option.some.inj (hchosen.symm.trans hchosen')
  simp only [elementwise, List.mem_cons, List.not_mem_nil, or_false] at hc
  rcases hc with rfl | rfl | rfl | rfl
  · exact elements_of_buildsArray hbase hi hs ht ho (Builtin.stringToArray_gives hrun)
  · exact elements_of_buildsCollection hbase hi hs ht ho (Builtin.stringToCollection_gives hrun)
  · exact elements_of_buildsCollection hbase hi hs ht ho (Builtin.arrayToCollection_gives hrun)
  · exact elements_of_buildsArray hbase hi hs ht ho (Builtin.collectionToArray_gives hrun)

end Soundness

/-- Whether a value is converted to something, by the converter of a name. -/
def convertsBy (s : ConversionService) (limit : Nat) (v : Value) (target : TypeDescriptor)
    (name : String) : Bool :=
  (match (s.convert limit (some v) target).run with
    | some (.ok (some _)) => true
    | _ => false) &&
  (match s.getConverter limit (s.descriptor (v.erasure s.registry)) target with
    | some (some c) => c.name = name
    | _ => false)

/-- A collection of a number and null is converted to an array of boxed numbers. -/
theorem convert_sound_numbers :
    ∃ s result, (bare bootstrap {}).addDefaults = .ok s ∧
      (s.convert 40 (some (.collection s.registry.wellKnown.arrayList [some (.int 1), none]))
        (.ofErasure bootstrap ⟨Bootstrap.wellKnown.long, 1⟩)).Gives (some result) ∧
      bootstrap.isAssignable ⟨Bootstrap.wellKnown.long, 1⟩ (result.erasure bootstrap) = true ∧
      ElementsFit s 40 (.ofErasure bootstrap ⟨Bootstrap.wellKnown.long, 1⟩) result := by
  have hcheck : (match (bare bootstrap {}).addDefaults with
      | .ok s => s.convertsBy 40 (.collection s.registry.wellKnown.arrayList [some (.int 1), none])
          (.ofErasure bootstrap ⟨Bootstrap.wellKnown.long, 1⟩) "CollectionToArray"
      | .error _ => false) = true := by decide +kernel
  rcases exists_addDefaults bootstrap {} with ⟨s, hs⟩
  rcases onlyBuiltin_of_addDefaults hs with ⟨hregistry, honly⟩
  rw [hs] at hcheck
  rcases Bool.and_eq_true_iff.mp hcheck with ⟨hgives, hname⟩
  split at hgives
  · rename_i result hresult
    have hplain : TypeDescriptor.IsPlainOf s.registry Bootstrap.wellKnown.long
        (.ofErasure bootstrap ⟨Bootstrap.wellKnown.long, 1⟩) := ⟨hregistry.symm, rfl, none, rfl⟩
    have hmade : TypeDescriptor.IsMade s.registry 40
        (.ofErasure bootstrap ⟨Bootstrap.wellKnown.long, 1⟩) := by
      rw [hregistry]
      exact .ofErasure ⟨Bootstrap.wellKnown.long, 1⟩
    have hsound := convert_sound (by rw [hregistry]; exact extendsBase_bootstrap)
      (by rw [hregistry]; exact regularInheritance_of_check (by decide +kernel)) honly hmade
      (hplain.ordinary (by rw [hregistry]; decide +kernel) (by rw [hregistry]; decide +kernel))
      hresult
    refine ⟨s, result, hs, hresult, hregistry ▸ hsound.1, ?_⟩
    split at hname
    · rename_i c hc
      have hname : c.name = "CollectionToArray" := by simpa using hname
      refine hsound.2 c ?_ hc
      rcases chosen_of_chooseConverter honly (registry_contextAt ..) hc with ⟨hc, -⟩ | ⟨rfl, -⟩
      · have hnames : ((Builtin.defaults s.registry).filter (·.name = "CollectionToArray")) =
            [Builtin.collectionToArray s.registry] := rfl
        have hmem : c ∈ [Builtin.collectionToArray s.registry] := by
          rw [← hnames]
          exact List.mem_filter.mpr ⟨hc, decide_eq_true hname⟩
        obtain rfl := List.mem_singleton.mp hmem
        simp [elementwise]
      · exact absurd hname (by decide)
    · simp at hname
  · simp at hgives

/-! ## Too many dimensions -/

/-- `G<T extends Cloneable[]…[]>` with a field `items` of `T[]`, and `H extends G<String[]…[]>`. -/
def overlong : Registry :=
  let cloneables : Erasure := ⟨Bootstrap.wellKnown.cloneable, 254⟩
  let strings : Erasure := ⟨Bootstrap.wellKnown.string, 255⟩
  let generic : ClassDef :=
    { name := "G", typeParams := [⟨18⟩], fields := [⟨"items", .genericArray (.typeVar ⟨18⟩), []⟩] }
  let bound : ClassDef :=
    { name := "H", superClass := some (.parameterized ⟨37⟩ [.plain strings] none) }
  ((bootstrap.addTypeParam ⟨"T", [.plain cloneables]⟩).1.push generic).push bound

/-- What `H` says about `G`. -/
def overlongView : Node :=
  .written (.parameterized ⟨37⟩ [.plain ⟨Bootstrap.wellKnown.string, 255⟩] none)
    (some (.ofClass ⟨38⟩))

/-- The field `items` seen from `H`: an array of arrays with the most dimensions. -/
def overlongItems : TypeDescriptor :=
  ⟨overlong, some (.written (.genericArray (.typeVar ⟨18⟩)) (some overlongView)),
    ⟨Bootstrap.wellKnown.cloneable, 255⟩, []⟩

/-- An element of `items`. -/
def overlongItem : TypeDescriptor :=
  ⟨overlong, some (.written (.typeVar ⟨18⟩) (some overlongView)),
    ⟨Bootstrap.wellKnown.string, 255⟩, []⟩

/-- An element of an element of `items`. -/
def overlongPart : TypeDescriptor :=
  ⟨overlong, some (.written (.plain ⟨Bootstrap.wellKnown.string, 254⟩) (some (.ofClass ⟨38⟩))),
    ⟨Bootstrap.wellKnown.string, 254⟩, []⟩

/-- Nothing in `items` is a list or set of a special kind. -/
theorem not_isSubInterface_overlong {d : TypeDescriptor} (h : overlongItems.Contains d) :
    ¬d.registry.IsSubInterface d.erasure := by
  have hitem : overlongItems.HasElement overlongItem := ⟨40, rfl⟩
  have hpart : overlongItem.HasElement overlongPart := ⟨40, rfl⟩
  have hplain : TypeDescriptor.IsPlainOf overlong Bootstrap.wellKnown.string overlongPart :=
    ⟨rfl, rfl, some (.ofClass ⟨38⟩), rfl⟩
  rcases Relation.ReflTransGen.cases_head h with rfl | ⟨e, he, h⟩
  · rintro ⟨hd, -⟩
    exact absurd hd (by decide +kernel)
  · obtain rfl := hitem.unique he
    rcases Relation.ReflTransGen.cases_head h with rfl | ⟨e, he, h⟩
    · rintro ⟨hd, -⟩
      exact absurd hd (by decide +kernel)
    · obtain rfl := hpart.unique he
      exact (hplain.ordinary (by decide +kernel) (by decide +kernel)).noSubInterface d h

/-- Where arrays have too many dimensions, what is given need not be assignable. -/
theorem overlong_not_assignable :
    overlong.ExtendsBase ∧ overlong.RegularInheritance ∧ overlongItems.IsMade overlong 40 ∧
      (∀ d, overlongItems.Contains d → ¬d.registry.IsSubInterface d.erasure) ∧
      ∃ s result, (bare overlong {}).addDefaults = .ok s ∧
        (s.convert 40 (some (.collection s.registry.wellKnown.arrayList [])) overlongItems).Gives
          (some result) ∧
        overlong.isAssignable overlongItems.erasure (result.erasure overlong) = false := by
  have hcheck : (match (bare overlong {}).addDefaults with
      | .ok s =>
        (match (s.convert 40 (some (.collection s.registry.wellKnown.arrayList []))
            overlongItems).run with
          | some (.ok (some result)) =>
            !overlong.isAssignable overlongItems.erasure (result.erasure overlong)
          | _ => false)
      | .error _ => false) = true := by decide +kernel
  have hmade : TypeDescriptor.ofFieldIn 40 overlong ⟨37⟩ "items" ⟨38⟩ =
    some (.ok overlongItems) := rfl
  rcases exists_addDefaults overlong {} with ⟨s, hs⟩
  refine ⟨((extendsBase_bootstrap.addTypeParam _).push _).push _,
    regularInheritance_of_check (by decide +kernel), .ofFieldIn hmade,
    fun d => not_isSubInterface_overlong, ?_⟩
  rw [hs] at hcheck
  dsimp only at hcheck
  split at hcheck
  · rename_i result hresult
    exact ⟨s, result, hs, hresult, by simpa using hcheck⟩
  · simp at hcheck

end ConversionService

end TypeConversion
