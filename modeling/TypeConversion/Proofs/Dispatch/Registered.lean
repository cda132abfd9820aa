import TypeConversion.Proofs.Dispatch.Arrays
import TypeConversion.Proofs.Dispatch.Ancestors
import TypeConversion.Proofs.Dispatch.Search
import TypeConversion.Conversion.Service

/-!
# What a registration can be found for

A converter is kept under its pairs as they are given, but it is looked for under the entries of two
hierarchies, and a hierarchy starts with the box of its type.  So a converter for a primitive is
taken in like any other, but its own types do not lead to it: the hierarchy of a primitive is that
of its box, in which no primitive is met.

**Results**

* `ExtendsBase.classHierarchy_boxed`, `ExtendsBase.self_mem_classHierarchy_iff`: the hierarchies of
  primitives, and which types are met in their own;
* `find_of_add_empty`: the search if there is only one converter;
* `findConverter_registered`: when a converter is found for a pair it was registered for;
* `primitiveTarget_not_found`: for a primitive it is not.
-/

namespace TypeConversion

namespace Registry

variable {r : Registry}

/-! ## Types in their own hierarchies -/

/-- The boxes, and all that is above them. -/
def boxLineage : List Erasure :=
  (Bootstrap.wellKnown.boxes.map (·.2) ++
    [Bootstrap.wellKnown.number, Bootstrap.wellKnown.comparable, Bootstrap.wellKnown.serializable,
      Bootstrap.wellKnown.object]).map .ofClass

theorem isLineage_boxLineage : IsLineage boxLineage := by
  unfold IsLineage
  decide +kernel

theorem boxed_of_mem_boxLineage : ∀ e ∈ boxLineage, bootstrap.boxed e = e := by
  decide +kernel

theorem boxed_mem_boxLineage : ∀ e ∈ scalarLineage, bootstrap.boxed e ∈ boxLineage := by
  decide +kernel

/-- The hierarchy of a primitive is that of its box. -/
theorem ExtendsBase.classHierarchy_boxed (hbase : r.ExtendsBase) (e : Erasure) :
    r.classHierarchy (r.boxed e) = r.classHierarchy e := by
  rcases hbase.boxed_eq_or_mem_scalarLineage e with hself | ⟨he, hbox⟩
  · rw [hself]
  · have hidem : r.boxed (r.boxed e) = r.boxed e := by
      rw [hbase.boxed_eq, hbase.boxed_eq]
      exact boxed_of_mem_boxLineage _ (boxed_mem_boxLineage e he)
    have hplain := (isLineage_scalarLineage e he).1
    rw [classHierarchy, classHierarchy, hidem, hbase.isEnum_of_mem_scalarLineage he,
      hbase.isEnum_of_mem_scalarLineage hbox, hplain, isArray_boxed r hplain]

/-- A type is met in its own hierarchy unless it is a primitive, which has another box. -/
theorem ExtendsBase.self_mem_classHierarchy_iff (hbase : r.ExtendsBase) (e : Erasure) :
    e ∈ r.classHierarchy e ↔ r.boxed e = e := by
  constructor
  · intro h
    rcases hbase.boxed_eq_or_mem_scalarLineage e with hself | ⟨he, hbox⟩
    · exact hself
    · have hstart : r.boxed e ∈ boxLineage := by
        rw [hbase.boxed_eq]
        exact boxed_mem_boxLineage e he
      have hobject : r.object ∈ boxLineage := by
        rw [object, hbase.wellKnown]
        decide
      rw [← hbase.classHierarchy_boxed] at h
      have hmet := hbase.mem_lineage_of_mem_classHierarchy isLineage_boxLineage hstart hobject
        (hbase.isEnum_of_mem_scalarLineage hbox) h
      exact (hbase.boxed_eq e).trans (boxed_of_mem_boxLineage e hmet)
  · intro h
    have hmem := r.boxed_mem_classHierarchy e
    rwa [h] at hmem

end Registry

namespace Converters

/-! ## A single converter -/

/-- A search among copies of one converter that takes the types. -/
theorem firstAccepting_of_forall_eq {ctx : ConversionContext} {source target : TypeDescriptor}
    {c : Converter} (haccepts : c.accepts ctx source target = some true) {cs : List Converter}
    (hcs : ∀ d ∈ cs, d = c) :
    firstAccepting ctx source target cs = some (if cs = [] then none else some c) := by
  cases cs with
  | nil => rfl
  | cons d rest =>
    obtain rfl : d = c := hcs d List.mem_cons_self
    simp [firstAccepting, haccepts]

variable {c : Converter} {pairs : List ConvertiblePair} {cs : Converters}

/-- The converters of a pair if one converter has been registered and no other. -/
theorem mem_atPair_of_add_empty (hpairs : c.pairs = some pairs) (hadd : empty.add c = .ok cs)
    (pair : ConvertiblePair) (d : Converter) : d ∈ cs.atPair pair ↔ d = c ∧ pair ∈ pairs := by
  have hchange : (ConverterChange.add c).apply empty = cs := by
    rw [ConverterChange.apply, hadd]
  rw [← hchange, atPair_apply]
  simp only [atPair, empty, List.lookup_nil, Option.getD_none, List.nil_append, entriesAt, hpairs,
    Option.getD_some, List.mem_map, List.mem_filter, decide_eq_true_eq]
  constructor
  · rintro ⟨q, ⟨hq, rfl⟩, rfl⟩
    exact ⟨rfl, hq⟩
  · rintro ⟨rfl, hp⟩
    exact ⟨pair, ⟨hp, rfl⟩, rfl⟩

/-- A converter with pairs is not kept among those without. -/
theorem global_of_add_empty (hpairs : c.pairs = some pairs) (hadd : empty.add c = .ok cs) :
    cs.global = [] := by
  have hchange : (ConverterChange.add c).apply empty = cs := by
    rw [ConverterChange.apply, hadd]
  rw [← hchange, global_apply]
  simp [empty, hpairs]

/-- The only converter is found where one of its pairs lies in the hierarchies of the types. -/
theorem find_of_add_empty (hpairs : c.pairs = some pairs) (hadd : empty.add c = .ok cs)
    {ctx : ConversionContext} {source target : TypeDescriptor}
    (haccepts : c.accepts ctx source target = some true) :
    (cs.find ctx source target = some (some c) ↔
      ∃ q ∈ pairs, q.source ∈ ctx.registry.classHierarchy source.erasure ∧
        q.target ∈ ctx.registry.classHierarchy target.erasure) ∧
    (cs.find ctx source target = some none ↔
      ¬∃ q ∈ pairs, q.source ∈ ctx.registry.classHierarchy source.erasure ∧
        q.target ∈ ctx.registry.classHierarchy target.erasure) := by
  have hmem : ∀ d, d ∈ cs.candidates ctx.registry source.erasure target.erasure ↔
      d = c ∧ ∃ q ∈ pairs, q.source ∈ ctx.registry.classHierarchy source.erasure ∧
        q.target ∈ ctx.registry.classHierarchy target.erasure := by
    intro d
    simp only [candidates, List.mem_flatMap, mem_atPair_of_add_empty hpairs hadd]
    constructor
    · rintro ⟨s, hs, t, ht, hd, hq⟩
      exact ⟨hd, ⟨s, t⟩, hq, hs, ht⟩
    · rintro ⟨hd, ⟨s, t⟩, hq, hs, ht⟩
      exact ⟨s, hs, t, ht, hd, hq⟩
  have hnonempty : cs.candidates ctx.registry source.erasure target.erasure ≠ [] ↔
      ∃ q ∈ pairs, q.source ∈ ctx.registry.classHierarchy source.erasure ∧
        q.target ∈ ctx.registry.classHierarchy target.erasure := by
    constructor
    · intro h
      rcases List.exists_mem_of_ne_nil _ h with ⟨d, hd⟩
      exact ((hmem d).mp hd).2
    · exact fun h => List.ne_nil_of_mem ((hmem c).mpr ⟨rfl, h⟩)
  rw [find, global_of_add_empty hpairs hadd, List.append_nil,
    firstAccepting_of_forall_eq haccepts fun d hd => ((hmem d).mp hd).1, ← hnonempty]
  by_cases hnil : cs.candidates ctx.registry source.erasure target.erasure = [] <;> simp [hnil]

end Converters

namespace ConversionService

/-- The service that a registration leads to. -/
theorem add_eq_ok_iff {s s' : ConversionService} {c : Converter} :
    s.add c = .ok s' ↔
      ∃ cs, s.converters.add c = .ok cs ∧ s' = { s with converters := cs } := by
  rw [add]
  cases s.converters.add c with
  | error e => simp [bind, Except.bind]
  | ok cs => simp [bind, Except.bind, pure, Except.pure, eq_comm]

@[simp] theorem context_registry (s : ConversionService) (limit : Nat) :
    (s.context limit).registry = s.registry := by
  cases limit <;> rfl

/--
A converter that a service without converters takes in, on types of one of its pairs that it takes:
it is found exactly if one of its pairs lies in the hierarchies of the types.  So it is if both are
their own boxes; and with the bootstrap classes, if it has no other pair, only then, that is if
neither is a primitive.
-/
theorem findConverter_registered {s s' : ConversionService} {c : Converter}
    {pairs : List ConvertiblePair} {p : ConvertiblePair} (hempty : s.converters = .empty)
    (hadd : s.add c = .ok s') (hpairs : c.pairs = some pairs) (hp : p ∈ pairs)
    {source target : TypeDescriptor} (hsource : source.erasure = p.source)
    (htarget : target.erasure = p.target) {limit : Nat}
    (haccepts : c.accepts (s'.context limit) source target = some true) :
    (s'.findConverter limit source target = some (some c) ↔
      ∃ q ∈ pairs, q.source ∈ s.registry.classHierarchy p.source ∧
        q.target ∈ s.registry.classHierarchy p.target) ∧
    (s'.findConverter limit source target = some none ↔
      ¬∃ q ∈ pairs, q.source ∈ s.registry.classHierarchy p.source ∧
        q.target ∈ s.registry.classHierarchy p.target) ∧
    (s.registry.boxed p.source = p.source → s.registry.boxed p.target = p.target →
      s'.findConverter limit source target = some (some c)) ∧
    (s.registry.ExtendsBase → (∀ q ∈ pairs, q = p) →
      (s'.findConverter limit source target = some (some c) ↔
        s.registry.boxed p.source = p.source ∧ s.registry.boxed p.target = p.target)) := by
  rcases add_eq_ok_iff.mp hadd with ⟨cs, hcs, rfl⟩
  rw [hempty] at hcs
  have hfind := Converters.find_of_add_empty hpairs hcs haccepts
  rw [hsource, htarget, context_registry] at hfind
  refine ⟨hfind.1, hfind.2, fun hs ht => ?_, fun hbase hsingle => ?_⟩
  · have hs' := s.registry.boxed_mem_classHierarchy p.source
    have ht' := s.registry.boxed_mem_classHierarchy p.target
    rw [hs] at hs'
    rw [ht] at ht'
    exact hfind.1.mpr ⟨p, hp, hs', ht'⟩
  · rw [← hbase.self_mem_classHierarchy_iff, ← hbase.self_mem_classHierarchy_iff]
    refine hfind.1.trans ⟨?_, fun h => ⟨p, hp, h⟩⟩
    rintro ⟨q, hq, h⟩
    rwa [hsingle q hq] at h

/-- Hands on the values of a pair. -/
def handOn (pair : ConvertiblePair) : Converter :=
  .ofFunction "hands on" pair fun value => .ok (some value)

/-- A converter from arrays of a primitive to a box is found. -/
theorem findConverter_registered_intArray :
    ∃ s', (bare Registry.bootstrap {}).add (handOn ⟨⟨Bootstrap.wellKnown.primInt, 1⟩,
        .ofClass Bootstrap.wellKnown.integer⟩) = .ok s' ∧
      ∀ limit, s'.findConverter limit (s'.descriptor ⟨Bootstrap.wellKnown.primInt, 1⟩)
          (s'.descriptor (.ofClass Bootstrap.wellKnown.integer)) =
        some (some (handOn ⟨⟨Bootstrap.wellKnown.primInt, 1⟩,
          .ofClass Bootstrap.wellKnown.integer⟩)) := by
  refine ⟨_, rfl, fun limit => ?_⟩
  exact (findConverter_registered rfl rfl rfl List.mem_cons_self rfl rfl rfl).2.2.1
    (by decide +kernel) (by decide +kernel)

/-- A converter from strings to a primitive is taken in, but not found for these types. -/
theorem primitiveTarget_not_found :
    ∃ s', (bare Registry.bootstrap {}).addFunctionFor (.ofClass Bootstrap.wellKnown.string)
        (.ofClass Bootstrap.wellKnown.primInt) (fun v => .ok (some v)) = .ok s' ∧
      ∀ limit, s'.findConverter limit (s'.descriptor (.ofClass Bootstrap.wellKnown.string))
        (s'.descriptor (.ofClass Bootstrap.wellKnown.primInt)) = some none := by
  refine ⟨_, rfl, fun limit => ?_⟩
  refine (Converters.find_of_add_empty (c := .ofFunction _ ⟨.ofClass Bootstrap.wellKnown.string,
    .ofClass Bootstrap.wellKnown.primInt⟩ fun v => .ok (some v)) rfl rfl rfl).2.mpr ?_
  rw [context_registry]
  decide +kernel

end ConversionService

end TypeConversion
