import TypeConversion.Proofs.Conversion.Nulls
import TypeConversion.Proofs.Conversion.Wholes

/-!
# Elements are converted one by one

Between arrays and collections, and from texts to arrays, a service converts element by element: the
result has as many elements as the source, in the same order.  For an array there are only two
converters, and none of them leaves elements out; of a collection only sets do.  But an element may
become null although it was not: whether the elements can be converted is asked once, for their
declared type, and an element of another type may be left out.

A collection that is a string as well may be given the text of an array.

**Results**

* `gives_of_array_target`: arrays are built of converted elements;
* `gives_of_array_source`: so are collections of the elements of arrays, unless they are strings;
* `convert_keeps_elements`: as many elements, in order, and null where one is left out;
* `convert_array_nulls`: what is null in an array that is built, and for which texts where elements
  are primitives.
-/

namespace TypeConversion

open Attempt Registry

/-! ## Collections and arrays -/

namespace Registry

/-- The classes that arrays are below, and all that is above them. -/
def arrayLineage : List Erasure :=
  [Bootstrap.wellKnown.cloneable, Bootstrap.wellKnown.serializable,
    Bootstrap.wellKnown.object].map .ofClass

theorem isLineage_arrayLineage : IsLineage arrayLineage := by
  unfold IsLineage
  decide

/-- Nothing but an array is assignable to an array. -/
theorem isAssignable_array_eq_false {r : Registry} {target source : Erasure}
    (ht : target.isArray = true) (hs : source.isArray = false) :
    r.isAssignable target source = false :=
  (isAssignable_eq_isSubclass_of_array ht).trans (not_isSubclass_of_array ht hs)

namespace ExtendsBase

variable {r : Registry} (hbase : r.ExtendsBase) {t : Erasure}

include hbase

/-- What is above arrays is no collection. -/
theorem isSubclass_collection_of_mem (ht : t ∈ arrayLineage) :
    r.isSubclass (Builtin.collectionInterface r) t = false := by
  rw [← Bool.not_eq_true]
  intro h
  have hmem := hbase.mem_lineage_of_isSubclass isLineage_arrayLineage rfl
    (by rw [object, hbase.wellKnown]; decide) ht h
  rw [Builtin.collectionInterface, hbase.wellKnown] at hmem
  exact absurd hmem (by decide)

section

variable (ht : r.isSubclass (Builtin.collectionInterface r) t = true)

include ht

/-- Arrays are no collections. -/
theorem isArray_of_isCollection : t.isArray = false := by
  rw [← Bool.not_eq_true]
  intro harray
  have habove := (isSubclass_iff_of_array rfl harray).mp ht
  rw [Builtin.collectionInterface, object, hbase.wellKnown] at habove
  exact absurd habove (by decide)

/-- Arrays are not below collections. -/
theorem isSubclass_array_of_isCollection {source : Erasure} (hs : source.isArray = true) :
    r.isSubclass t source = false := by
  rw [← Bool.not_eq_true, isSubclass_iff_of_array (hbase.isArray_of_isCollection ht) hs]
  intro habove
  have hmem : t ∈ arrayLineage := by
    rw [object, hbase.wellKnown] at habove
    rcases habove with rfl | rfl | rfl <;> decide
  exact Bool.false_ne_true ((hbase.isSubclass_collection_of_mem hmem).symm.trans ht)

/-- No array passes for a collection. -/
theorem isAssignable_collection_eq_false {source : Erasure} (hs : source.isArray = true) :
    r.isAssignable t source = false := by
  rw [← Bool.not_eq_true, isAssignable_iff]
  rintro (h | ⟨-, h⟩ | ⟨-, h, -⟩)
  · exact Bool.false_ne_true ((hbase.isSubclass_array_of_isCollection ht hs).symm.trans h)
  · rcases (hbase.unboxed?_eq_some_iff _ _).mp h with ⟨b, -, rfl, -⟩
    exact Bool.false_ne_true hs
  · exact Bool.false_ne_true ((isArray_of_hasKind h).symm.trans hs)

/-- A collection that meets the class of strings is a string. -/
theorem isSubclass_string_of_isCollection
    (hmem : Builtin.stringClass r ∈ r.classHierarchy t) :
    r.isSubclass (Builtin.stringClass r) t = true := by
  have hplain := hbase.isArray_of_isCollection ht
  have hstring : r.isPrimitive (Builtin.stringClass r) = false := by
    rw [Builtin.stringClass, hbase.wellKnown, hbase.isPrimitive_ofClass (by decide)]
    decide
  have hprimitive : r.isPrimitive t = false := by
    rcases (isSubclass_iff_of_classes rfl hplain).mp ht with rfl | ⟨-, h, -⟩
    · rw [Builtin.collectionInterface, hbase.wellKnown, hbase.isPrimitive_ofClass (by decide)]
      decide
    · exact h
  rcases mem_classHierarchy_cases hbase hplain hmem with hbelow | hscalar | henum
  · exact (isSubclass_iff_of_classes rfl hplain).mpr (.inr ⟨hstring, hprimitive, .inr hbelow⟩)
  · exact absurd hscalar (hbase.not_mem_scalarLineage (by simp [Builtin.stringClass]))
  · rw [Builtin.stringClass, hbase.wellKnown] at henum
    exact absurd henum (by decide)

end

end ExtendsBase

end Registry

namespace ConversionService

/-! ## The converters of arrays -/

section

variable {r : Registry} (hbase : r.ExtendsBase) {e : Erasure} (he : e.isArray = true)

include hbase he

/-- No type of a built-in converter but arrays and the top class is met by arrays. -/
theorem ofClass_not_mem_of_isArray {k : ClassId}
    (hk : k ∈ [r.wellKnown.string, r.wellKnown.number, r.wellKnown.collection,
      r.wellKnown.enumClass] ++ r.wellKnown.boxes.map (·.2)) :
    .ofClass k ∉ r.classHierarchy e := by
  have hne : k ≠ r.wellKnown.object := by
    rw [hbase.wellKnown] at hk ⊢
    revert k
    decide
  rcases exists_classHierarchy_of_isArray (r := r) he with ⟨entries, hsplit, -, harrays⟩
  rw [hsplit]
  intro hmem
  rcases List.mem_append.mp hmem with h | h
  · exact Bool.false_ne_true (harrays _ h)
  · exact hne (congrArg Erasure.element (List.mem_singleton.mp h))

variable {c : Converter} (hc : c ∈ Builtin.defaults r) {pair : ConvertiblePair}
  (hpair : pair ∈ c.pairs.getD [])

include hc hpair

/-- From arrays there are converters into texts, and one into collections. -/
theorem eq_of_array_source (hmem : pair.source ∈ r.classHierarchy e) :
    pair.target = Builtin.stringClass r ∧
        (c = Builtin.objectToString r ∨ c = Builtin.arrayToString r) ∨
      c = Builtin.arrayToCollection r := by
  have hnot := fun k => ofClass_not_mem_of_isArray hbase he (k := k)
  simp only [Builtin.defaults, List.mem_cons, List.not_mem_nil, or_false] at hc
  -- one case for each converter, in the order in which they are registered
  rcases hc with rfl | rfl | rfl | rfl | rfl | rfl | rfl | rfl | rfl | rfl | rfl | rfl
  · rcases List.mem_map.mp hpair with ⟨box, -, rfl⟩
    exact absurd hmem (hnot _ (by simp))
  all_goals obtain rfl := List.mem_singleton.mp hpair
  · exact absurd hmem (hnot _ (by simp))
  · exact absurd hmem (hnot _ (by simp))
  · exact absurd hmem (hnot _ (by simp))
  · exact .inl ⟨rfl, .inl rfl⟩
  · exact absurd hmem (hnot _ (by simp))
  · exact absurd hmem (hnot _ (by simp))
  · exact .inl ⟨rfl, .inr rfl⟩
  · exact absurd hmem (hnot _ (by simp))
  · exact absurd hmem (hnot _ (by simp))
  · exact .inr rfl
  · exact absurd hmem (hnot _ (by simp))

/-- Arrays are built from texts and from collections. -/
theorem eq_of_array_target (hmem : pair.target ∈ r.classHierarchy e) :
    c = Builtin.stringToArray r ∨ c = Builtin.collectionToArray r := by
  have hnot := fun k => ofClass_not_mem_of_isArray hbase he (k := k)
  simp only [Builtin.defaults, List.mem_cons, List.not_mem_nil, or_false] at hc
  -- one case for each converter, in the order in which they are registered
  rcases hc with rfl | rfl | rfl | rfl | rfl | rfl | rfl | rfl | rfl | rfl | rfl | rfl
  · rcases List.mem_map.mp hpair with ⟨⟨box, kind⟩, hbox, rfl⟩
    obtain rfl := NumericKind.eq_box_of_mem_boxes hbox
    exact absurd hmem (hnot _ (List.mem_append_right _ (NumericKind.box_mem_boxes r kind)))
  all_goals obtain rfl := List.mem_singleton.mp hpair
  · exact absurd hmem (hnot _ (by simp [WellKnown.boxes]))
  · exact absurd hmem (hnot _ (by simp [WellKnown.boxes]))
  · exact absurd hmem (hnot _ (by simp))
  · exact absurd hmem (hnot _ (by simp))
  · exact absurd hmem (hnot _ (by simp))
  · exact .inl rfl
  · exact absurd hmem (hnot _ (by simp))
  · exact absurd hmem (hnot _ (by simp))
  · exact absurd hmem (hnot _ (by simp))
  · exact absurd hmem (hnot _ (by simp))
  · exact .inr rfl

end

/-! ## Conversions of elements -/

section

variable {s : ConversionService}

/-- The parts of a text, or the elements of a collection, which arrays are built of. -/
def arrayParts? (s : ConversionService) : Value → Option (List (Option Value))
  | .string text =>
    some ((Builtin.splitElements (s.context 0) text).map fun part => some (.string part))
  | .collection _ elements => some elements
  | _ => none

/-- A text for a value with elements: its own, or those of its elements with the delimiter between
them. -/
def IsTextOf (s : ConversionService) (limit : Nat) (v : Value) (xs : List (Option Value))
    (text : String) : Prop :=
  text = v.text ∨ (Builtin.joinElements (s.context limit) xs).Gives text

theorem splitElements_contextAt_eq (limit depth : Nat) (text : String) :
    Builtin.splitElements (s.contextAt limit depth) text =
      Builtin.splitElements (s.context 0) text := by
  rw [context, Builtin.splitElements, Builtin.splitElements, config_contextAt, config_contextAt]

variable (hbase : s.registry.ExtendsBase) (hs : s.OnlyBuiltin) {target : TypeDescriptor}
  {limit : Nat} {result : Value}

include hbase hs

/-- What is built for an array is an array of the converted parts. -/
theorem gives_of_array_target {v : Value} (hv : (v.erasure s.registry).isArray = false)
    (harray : target.erasure.isArray = true)
    (h : (s.convert limit (some v) target).Gives (some result)) :
    ∃ xs element ys, s.arrayParts? v = some xs ∧ target.HasElement element ∧
      result = .array element.erasure ys ∧ s.ConvertsEach element xs ys := by
  change (s.convertIn (s.contextAt limit limit) (some _) none target).Gives (some result) at h
  rcases exists_chosen_of_convertIn h with ⟨c, hchosen, hrun⟩
  rcases chosen_of_chooseConverter hs (registry_contextAt ..) hchosen with
    ⟨hc, pair, hpair, hmem⟩ | ⟨rfl, hpass⟩
  · rcases eq_of_array_target hbase harray hc hpair hmem with rfl | rfl
    · rcases Builtin.stringToArray_gives_iff.mp hrun with
        ⟨text, rfl, element, ys, helement, hys, heq⟩
      rw [splitElements_contextAt_eq] at hys
      exact ⟨_, element, ys, rfl, ⟨_, helement⟩, Option.some.inj heq, convertsEach_of_gives hs hys⟩
    · rcases Builtin.collectionToArray_gives_iff.mp hrun with
        ⟨c, xs, rfl, element, ys, helement, hys, heq⟩
      exact ⟨_, element, ys, rfl, ⟨_, helement⟩, Option.some.inj heq, convertsEach_of_gives hs hys⟩
  · exact absurd ((isAssignable_array_eq_false harray hv).symm.trans hpass) Bool.false_ne_true

/-- What is built for a collection that is no set, from an array, has all converted elements. -/
theorem gives_of_array_source {component : Erasure} {xs : List (Option Value)}
    (hcollection : s.registry.isSubclass (Builtin.collectionInterface s.registry) target.erasure =
      true)
    (hset : s.registry.isSubclass (.ofClass s.registry.wellKnown.set) target.erasure = false)
    (h : (s.convert limit (some (.array component xs)) target).Gives (some result)) :
    s.registry.isSubclass (Builtin.stringClass s.registry) target.erasure = true ∧
        (∃ text, result = .string text ∧ s.IsTextOf limit (.array component xs) xs text) ∨
      ∃ element ys, target.HasElement element ∧
        (∃ c, s.registry.collectionClass target.erasure = .ok c ∧ result = .collection c ys) ∧
        s.ConvertsEach element xs ys := by
  have harray : ((Value.array component xs).erasure s.registry).isArray = true :=
    isArray_array component
  change (s.convertIn (s.contextAt limit limit) (some _) none target).Gives (some result) at h
  rcases exists_chosen_of_convertIn h with ⟨c, hchosen, hrun⟩
  rcases accepted_of_chooseConverter hs (registry_contextAt ..) hchosen with
    ⟨hc, -, pair, hpair, hfrom, hto⟩ | ⟨rfl, hpass⟩
  · rcases eq_of_array_source hbase harray hc hpair hfrom with ⟨hstring, htext⟩ | rfl
    · rw [hstring] at hto
      refine .inl ⟨hbase.isSubclass_string_of_isCollection hcollection hto, ?_⟩
      rcases htext with rfl | rfl
      · rcases Builtin.objectToString_gives hrun with ⟨_, ⟨⟩, rfl⟩
        exact ⟨_, rfl, .inl rfl⟩
      · rcases Builtin.arrayToString_gives hrun with ⟨_, _, text, ⟨⟩, hjoined, rfl⟩
        exact ⟨text, rfl, .inr hjoined⟩
    · rcases Builtin.arrayToCollection_gives_iff.mp hrun with
        ⟨_, _, ⟨⟩, element, ys, built, helement, hys, hbuilt, heq⟩
      rw [registry_contextAt] at hbuilt
      rw [Option.some.inj heq]
      exact .inr ⟨element, ys, ⟨_, helement⟩, hbase.createCollection_of_not_set hset hbuilt,
        convertsEach_of_gives hs hys⟩
  · exact absurd ((hbase.isAssignable_collection_eq_false hcollection harray).symm.trans hpass)
      Bool.false_ne_true

end

/-- Whether an attempt gives something with elements that pass a check. -/
def givesElements (x : Attempt (Option Value)) (check : List (Option Value) → Bool) : Bool :=
  x.givesAny fun given => (given.bind Value.elements?).any check

theorem exists_of_givesElements {x : Attempt (Option Value)} {check : List (Option Value) → Bool}
    (h : givesElements x check = true) :
    ∃ result ys, x.Gives (some result) ∧ result.elements? = some ys ∧ check ys = true := by
  rcases exists_of_givesAny h with ⟨given, hgiven, hgives⟩
  rcases (Option.any_eq_true ..).mp hgives with ⟨ys, hys, hcheck⟩
  rcases Option.bind_eq_some_iff.mp hys with ⟨result, rfl, helements⟩
  exact ⟨result, ys, hgiven, helements, hcheck⟩

/--
A value with elements, and a type that keeps them all: an array for a collection that is no set, or
a collection for an array.
-/
inductive KeepsElements (r : Registry) (t : Erasure) (xs : List (Option Value)) : Value → Prop
  | array (component : Erasure)
    (hcollection : r.isSubclass (Builtin.collectionInterface r) t = true)
    (hset : r.isSubclass (.ofClass r.wellKnown.set) t = false) :
    KeepsElements r t xs (.array component xs)
  | collection (c : ClassId) (harray : t.isArray = true) : KeepsElements r t xs (.collection c xs)

/--
Between arrays and collections that are no sets, what is given has as many elements as the source,
in order, and null for exactly those that are left out: null, blank strings, and what there is no
converter for.  Only for a collection that is a string as well there may be a text instead, that of
the value or those of its elements.
-/
theorem convert_keeps_elements {s : ConversionService} (hbase : s.registry.ExtendsBase)
    (hs : s.OnlyBuiltin) {target : TypeDescriptor} {v : Value} {xs : List (Option Value)}
    (hv : KeepsElements s.registry target.erasure xs v) {limit : Nat} {result : Value}
    (h : (s.convert limit (some v) target).Gives (some result)) :
    s.registry.isSubclass (Builtin.stringClass s.registry) target.erasure = true ∧
        (∃ text, result = .string text ∧ s.IsTextOf limit v xs text) ∨
      ∃ element ys, target.HasElement element ∧ result.elements? = some ys ∧
        s.ConvertsEach element xs ys := by
  cases hv with
  | array component hcollection hset =>
    rcases gives_of_array_source hbase hs hcollection hset h with
      htext | ⟨element, ys, helement, ⟨c, -, rfl⟩, hys⟩
    · exact .inl htext
    · exact .inr ⟨element, ys, helement, rfl, hys⟩
  | collection c harray =>
    rcases gives_of_array_target hbase hs rfl harray h with
      ⟨_, element, ys, hxs, helement, rfl, hys⟩
    obtain rfl := Option.some.inj hxs
    exact .inr ⟨element, ys, helement, rfl, hys⟩

/-- A list of numbers for an array of a truth value, null and a number. -/
theorem convert_keeps_elements_numbers :
    ∃ s result, (bare bootstrap {}).addDefaults = .ok s ∧
      KeepsElements s.registry (TypeDescriptor.listOf bootstrap Bootstrap.wellKnown.integer).erasure
        [some (.boolean true), none, some (.int 1)]
        (.array s.registry.object [some (.boolean true), none, some (.int 1)]) ∧
      (s.convert 40 (some (.array s.registry.object [some (.boolean true), none, some (.int 1)]))
        (.listOf bootstrap Bootstrap.wellKnown.integer)).Gives (some result) ∧
      (s.registry.isSubclass (Builtin.stringClass s.registry)
            (TypeDescriptor.listOf bootstrap Bootstrap.wellKnown.integer).erasure = true ∧
          (∃ text, result = .string text ∧ s.IsTextOf 40
            (.array s.registry.object [some (.boolean true), none, some (.int 1)])
            [some (.boolean true), none, some (.int 1)] text) ∨
        ∃ element ys,
          (TypeDescriptor.listOf bootstrap Bootstrap.wellKnown.integer).HasElement element ∧
          result.elements? = some ys ∧
          s.ConvertsEach element [some (.boolean true), none, some (.int 1)] ys) := by
  have hcheck : ((bare bootstrap {}).addDefaults.toOption.any fun s =>
      givesElements (s.convert 40
        (some (.array s.registry.object [some (.boolean true), none, some (.int 1)]))
        (.listOf bootstrap Bootstrap.wellKnown.integer)) fun _ => true) = true := by
    decide +kernel
  rcases exists_of_addDefaults_any hcheck with ⟨s, hs, hcheck⟩
  rcases exists_of_givesElements hcheck with ⟨result, -, hgives, -⟩
  rcases onlyBuiltin_of_addDefaults hs with ⟨hregistry, honly⟩
  have hkept : KeepsElements s.registry
      (TypeDescriptor.listOf bootstrap Bootstrap.wellKnown.integer).erasure
      [some (.boolean true), none, some (.int 1)]
      (.array s.registry.object [some (.boolean true), none, some (.int 1)]) := by
    rw [hregistry]
    exact .array _ (by decide +kernel) (by decide +kernel)
  exact ⟨s, result, hs, hkept, hgives,
    convert_keeps_elements (hregistry ▸ extendsBase_bootstrap) honly hkept hgives⟩

/-- A class `W` of strings that implements `Collection<Integer>`. -/
def numberWords : Registry :=
  bootstrap.push
    { name := "W", superClass := some (.ofClass Bootstrap.wellKnown.string),
      interfaces := [.parameterized Bootstrap.wellKnown.collection
        [.ofClass Bootstrap.wellKnown.integer] none] }

/--
A truth value is lost where a list of numbers is asked for; and a collection of numbers that is a
string is given the text of an array.
-/
theorem elements_lost :
    (∃ s result ys, (bare bootstrap {}).addDefaults = .ok s ∧
      KeepsElements s.registry (TypeDescriptor.listOf bootstrap Bootstrap.wellKnown.integer).erasure
        [some (.boolean true)] (.array s.registry.object [some (.boolean true)]) ∧
      (s.convert 40 (some (.array s.registry.object [some (.boolean true)]))
        (.listOf bootstrap Bootstrap.wellKnown.integer)).Gives (some result) ∧
      result.elements? = some ys ∧ ys.map (·.isNone) = [true]) ∧
    numberWords.ExtendsBase ∧
    ∃ s text, (bare numberWords {}).addDefaults = .ok s ∧
      KeepsElements s.registry (.ofClass ⟨37⟩) [some (.int 1)]
        (.array (.ofClass Bootstrap.wellKnown.integer) [some (.int 1)]) ∧
      (s.convert 40 (some (.array (.ofClass Bootstrap.wellKnown.integer) [some (.int 1)]))
        (.ofErasure numberWords (.ofClass ⟨37⟩))).Gives (some (.string text)) := by
  have hcheck : ((bare bootstrap {}).addDefaults.toOption.any fun s =>
      givesElements (s.convert 40 (some (.array s.registry.object [some (.boolean true)]))
        (.listOf bootstrap Bootstrap.wellKnown.integer)) (·.map (·.isNone) = [true])) = true := by
    decide +kernel
  have hcheck' : ((bare numberWords {}).addDefaults.toOption.any fun s =>
      (s.convert 40 (some (.array (.ofClass Bootstrap.wellKnown.integer) [some (.int 1)]))
        (.ofErasure numberWords (.ofClass ⟨37⟩))).givesAny fun given =>
          (given.bind Value.asText?).isSome) = true := by
    decide +kernel
  refine ⟨?_, extendsBase_bootstrap.push _, ?_⟩
  · rcases exists_of_addDefaults_any hcheck with ⟨s, hs, hcheck⟩
    rcases exists_of_givesElements hcheck with ⟨result, ys, hgives, hys, hnulls⟩
    refine ⟨s, result, ys, hs, ?_, hgives, hys, of_decide_eq_true hnulls⟩
    rw [(onlyBuiltin_of_addDefaults hs).1]
    exact .array _ (by decide +kernel) (by decide +kernel)
  · rcases exists_of_addDefaults_any hcheck' with ⟨s, hs, hcheck'⟩
    rcases exists_of_givesAny hcheck' with ⟨given, hgives, htext⟩
    rcases Option.isSome_iff_exists.mp htext with ⟨text, htext⟩
    rcases Option.bind_eq_some_iff.mp htext with ⟨v, rfl, hv⟩
    obtain rfl : v = .string text := by cases v <;> simp_all [Value.asText?]
    refine ⟨s, text, hs, ?_, hgives⟩
    rw [(onlyBuiltin_of_addDefaults hs).1]
    exact .array _ (by decide +kernel) (by decide +kernel)

/-! ## Arrays of primitives -/

/-- The converter that reads the values of a box from texts, and what it passes over. -/
theorem exists_scalarReader {r : Registry} (hbase : r.ExtendsBase) {b : ClassId × ClassId}
    (hb : b ∈ r.wellKnown.boxes) :
    ∃ c ∈ Builtin.defaults r, ⟨Builtin.stringClass r, .ofClass b.2⟩ ∈ c.pairs.getD [] ∧
      (∀ ctx source target, c.accepts ctx source target = some true) ∧
      ∀ text, Builtin.passesOver c.name text =
        if b.1 = r.wellKnown.primChar then text.isEmpty else isAllBlank text := by
  have hbootstrap : ∀ b ∈ Bootstrap.wellKnown.boxes,
      b = (Bootstrap.wellKnown.primChar, Bootstrap.wellKnown.character) ∨
        b.1 ≠ Bootstrap.wellKnown.primChar ∧ (b.2 = Bootstrap.wellKnown.boolean ∨
          b.2 ∈ (NumericKind.boxes bootstrap).map (·.1)) := by decide
  have hboxes : (NumericKind.boxes bootstrap).map (·.1) = (NumericKind.boxes r).map (·.1) := by
    rw [NumericKind.boxes, NumericKind.boxes, hbase.wellKnown]
    rfl
  rw [hboxes, ← hbase.wellKnown] at hbootstrap
  rcases hbootstrap b hb with rfl | ⟨hchar, hboolean | hnumber⟩
  · exact ⟨Builtin.stringToCharacter r, by simp [Builtin.defaults], List.mem_cons_self,
      fun _ _ _ => rfl, fun _ => (if_pos rfl).symm⟩
  · rw [hboolean]
    exact ⟨Builtin.stringToBoolean r, by simp [Builtin.defaults], List.mem_cons_self,
      fun _ _ _ => rfl, fun _ => (if_neg hchar).symm⟩
  · rcases List.mem_map.mp hnumber with ⟨⟨_, kind⟩, hkind, rfl⟩
    exact ⟨Builtin.stringToNumber r, by simp [Builtin.defaults],
      List.mem_map.mpr ⟨_, hkind, rfl⟩, fun _ _ _ => rfl, fun _ => (if_neg hchar).symm⟩

/--
Where primitives are asked for, blank texts stand for nothing; for characters only the empty one
does.
-/
theorem isLeftOut_text_iff {s : ConversionService} (hbase : s.registry.ExtendsBase)
    (hs : (bare s.registry s.config).addDefaults = .ok s) {element : TypeDescriptor}
    {b : ClassId × ClassId} (hb : b ∈ s.registry.wellKnown.boxes)
    (helement : element.erasure = .ofClass b.1) (text : String) :
    s.IsLeftOut element (some (.string text)) ↔
      (if b.1 = s.registry.wellKnown.primChar then text.isEmpty else isAllBlank text) = true := by
  have hbox : s.registry.boxed element.erasure = .ofClass b.2 := by
    have hbootstrap : ∀ b ∈ Bootstrap.wellKnown.boxes,
        bootstrap.boxed (.ofClass b.1) = .ofClass b.2 := by decide
    rw [helement, hbase.boxed_eq]
    exact hbootstrap b (hbase.wellKnown ▸ hb)
  rcases exists_scalarReader hbase hb with ⟨c, hc, hpair, haccepts, hpasses⟩
  have hfound : s.FindsConverter (.string text) element (some c) := by
    refine ⟨0, chooseConverter_of_meetsFirst hs (registry_contextAt ..) ?_ (haccepts ..)⟩
    exact meetsFirst_box hbase (List.mem_map_of_mem hb) hbox hc hpair
  have honly := (onlyBuiltin_of_addDefaults hs).2
  rw [← hpasses]
  constructor
  · rintro (_ | hnone | ⟨hfound', htext⟩)
    · exact absurd (hfound.unique honly hnone) (by simp)
    · obtain rfl := Option.some.inj (hfound.unique honly hfound')
      exact htext
  · exact .passedOver hfound

/--
What a text or a collection is converted to where an array is asked for: an array of its converted
parts, with null for exactly those that are left out, arrays of primitives included.
-/
theorem convert_array_nulls {r : Registry} (hbase : r.ExtendsBase) {config : ConversionConfig}
    {s : ConversionService} (hs : (bare r config).addDefaults = .ok s) {target : TypeDescriptor}
    (harray : target.erasure.isArray = true) {v : Value} {xs : List (Option Value)}
    (hv : s.arrayParts? v = some xs) {limit : Nat} {result : Value}
    (h : (s.convert limit (some v) target).Gives (some result)) :
    ∃ element ys, target.HasElement element ∧ result = .array element.erasure ys ∧
      s.ConvertsEach element xs ys ∧
      ∀ b ∈ r.wellKnown.boxes, element.erasure = .ofClass b.1 → ∀ text,
        (s.IsLeftOut element (some (.string text)) ↔
          (if b.1 = r.wellKnown.primChar then text.isEmpty else isAllBlank text) = true) := by
  obtain ⟨rfl, honly⟩ := onlyBuiltin_of_addDefaults hs
  obtain rfl := config_of_addDefaults hs
  have hclass : (v.erasure s.registry).isArray = false := by
    cases v with
    | string _ | collection _ _ => rfl
    | _ => simp [arrayParts?] at hv
  rcases gives_of_array_target hbase honly hclass harray h with
    ⟨_, element, ys, hxs, helement, rfl, hys⟩
  obtain rfl := Option.some.inj (hv.symm.trans hxs)
  exact ⟨element, ys, helement, rfl, hys, fun b hb heq => isLeftOut_text_iff hbase hs hb heq⟩

/-- An array of numbers for a text with nothing between two delimiters. -/
theorem convert_array_nulls_numbers :
    ∃ s result xs, (bare bootstrap {}).addDefaults = .ok s ∧
      (Erasure.ofClass Bootstrap.wellKnown.primInt).array.isArray = true ∧
      s.arrayParts? (.string "1,,2") = some xs ∧
      (s.convert 40 (some (.string "1,,2"))
        (.ofErasure bootstrap (Erasure.ofClass Bootstrap.wellKnown.primInt).array)).Gives
          (some result) ∧
      ∃ element ys, (TypeDescriptor.ofErasure bootstrap
          (Erasure.ofClass Bootstrap.wellKnown.primInt).array).HasElement element ∧
        result = .array element.erasure ys ∧ s.ConvertsEach element xs ys ∧
        ∀ b ∈ bootstrap.wellKnown.boxes, element.erasure = .ofClass b.1 → ∀ text,
          (s.IsLeftOut element (some (.string text)) ↔
            (if b.1 = bootstrap.wellKnown.primChar then text.isEmpty
              else isAllBlank text) = true) := by
  have hcheck : ((bare bootstrap {}).addDefaults.toOption.any fun s =>
      givesElements (s.convert 40 (some (.string "1,,2"))
        (.ofErasure bootstrap (Erasure.ofClass Bootstrap.wellKnown.primInt).array))
          fun _ => true) = true := by
    decide +kernel
  rcases exists_of_addDefaults_any hcheck with ⟨s, hs, hcheck⟩
  rcases exists_of_givesElements hcheck with ⟨result, -, hgives, -⟩
  exact ⟨s, result, _, hs, isArray_array _, rfl, hgives,
    convert_array_nulls extendsBase_bootstrap hs (isArray_array _) rfl hgives⟩

/-- Null is in an array of numbers for nothing between delimiters, for null, and for the truth. -/
theorem primitives_null :
    bootstrap.isPrimitive (.ofClass Bootstrap.wellKnown.primInt) = true ∧
      ∃ s, (bare bootstrap {}).addDefaults = .ok s ∧
        ∀ v ∈ [.string "1,,2", .collection Bootstrap.wellKnown.arrayList [none],
            .collection Bootstrap.wellKnown.arrayList [some (.boolean true)]],
          ∃ result ys, (s.convert 40 (some v)
              (.ofErasure bootstrap (Erasure.ofClass Bootstrap.wellKnown.primInt).array)).Gives
                (some result) ∧
            result.elements? = some ys ∧ none ∈ ys := by
  have hcheck : ((bare bootstrap {}).addDefaults.toOption.any fun s =>
      [Value.string "1,,2", .collection Bootstrap.wellKnown.arrayList [none],
          .collection Bootstrap.wellKnown.arrayList [some (.boolean true)]].all fun v =>
        givesElements (s.convert 40 (some v)
          (.ofErasure bootstrap (Erasure.ofClass Bootstrap.wellKnown.primInt).array))
            (·.any (·.isNone))) = true := by
    decide +kernel
  rcases exists_of_addDefaults_any hcheck with ⟨s, hs, hcheck⟩
  refine ⟨by decide +kernel, s, hs, fun v hv => ?_⟩
  rcases exists_of_givesElements (List.all_eq_true.mp hcheck v hv) with ⟨result, ys, hgives, hys, hnull⟩
  rcases List.any_eq_true.mp hnull with ⟨y, hy, hnone⟩
  obtain rfl := Option.isNone_iff_eq_none.mp hnone
  exact ⟨result, ys, hgives, hys, hy⟩

end ConversionService

end TypeConversion
