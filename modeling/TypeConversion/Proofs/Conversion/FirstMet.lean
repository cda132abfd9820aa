import TypeConversion.Proofs.Conversion.Boxing
import TypeConversion.Proofs.Conversion.Idempotence
import TypeConversion.Proofs.Dispatch.BaseClasses
import TypeConversion.Proofs.Dispatch.Registered
import TypeConversion.Proofs.Node.Lineage

/-!
# Which converter is met first

The types that strings are converted to by a converter of their own are few, and a hierarchy that
meets one of them need not meet another.  Where it does not, strings are converted by that
converter.  On the way to strings, arrays and lists meet their own converters before they come to
the top class, and what is neither an array nor a collection meets only the one from there.

**Results**

* `chooseConverter_of_meetsFirst`: the converter that is met first is used if it takes the types;
* `meetsFirst_box`, `meetsFirst_enum`, `meetsFirst_array`, `meetsFirst_list`: on the way from
  strings;
* `meetsFirst_text`, `meetsFirst_arrayText`, `meetsFirst_listText`: on the way to strings.
-/

namespace TypeConversion

open Registry

namespace Builtin

/-- Built-in converters are told apart by their names. -/
theorem eq_of_name_eq {r : Registry} {c d : Converter} (hc : c ∈ defaults r) (hd : d ∈ defaults r)
    (h : c.name = d.name) : c = d := by
  have hnodup : ((defaults r).map (·.name)).Nodup := by
    change ["StringToNumber", "StringToBoolean", "StringToCharacter", "NumberToNumber",
      "ObjectToString", "StringToEnum", "StringToArray", "ArrayToString", "StringToCollection",
      "CollectionToString", "ArrayToCollection", "CollectionToArray"].Nodup
    decide
  exact List.inj_on_of_nodup_map hnodup hc hd h

end Builtin

namespace ConversionService

/--
A built-in converter for a source and a target: the hierarchy of the source begins with entries that
lead to this converter, and to no other.
-/
def MeetsFirst (r : Registry) (source target : Erasure) (c : Converter) : Prop :=
  ∃ front back, r.classHierarchy source = front ++ back ∧
    (c ∈ Builtin.defaults r ∧ ∃ pair ∈ c.pairs.getD [],
      pair.source ∈ front ∧ pair.target ∈ r.classHierarchy target) ∧
    ∀ d ∈ Builtin.defaults r, ∀ pair ∈ d.pairs.getD [],
      pair.source ∈ front → pair.target ∈ r.classHierarchy target → d = c

/-- The converters that are met at an entry of the hierarchy of a source. -/
def metAt (s : ConversionService) (target entry : Erasure) : List Converter :=
  (s.registry.classHierarchy target).flatMap fun t => s.converters.atPair ⟨entry, t⟩

/-- The converter that is met first is used if it takes the types. -/
theorem chooseConverter_of_meetsFirst {s : ConversionService} {r : Registry}
    {config : ConversionConfig} (hs : (bare r config).addDefaults = .ok s) {ctx : ConversionContext}
    (hctx : ctx.registry = r) {source target : TypeDescriptor} {c : Converter}
    (hfirst : MeetsFirst r source.erasure target.erasure c)
    (haccepts : c.accepts ctx source target = some true) :
    s.chooseConverter ctx source target = some (some c) := by
  rcases onlyBuiltin_of_addDefaults hs with ⟨rfl, honly⟩
  rcases hfirst with ⟨front, back, hsplit, ⟨hbuiltin, pair, hpair, hfrom, hto⟩, hunique⟩
  have hcandidates : s.converters.candidates s.registry source.erasure target.erasure =
      front.flatMap (s.metAt target.erasure) ++ back.flatMap (s.metAt target.erasure) := by
    rw [← List.flatMap_append, ← hsplit]
    rfl
  have hmem : c ∈ front.flatMap (s.metAt target.erasure) := by
    have hregistered : c ∈ s.converters.atPair pair :=
      mem_atPair_of_foldlM hs (.inr ⟨hbuiltin, hpair⟩)
    exact List.mem_flatMap.mpr ⟨_, hfrom, List.mem_flatMap.mpr ⟨_, hto, hregistered⟩⟩
  have hall : ∀ d ∈ front.flatMap (s.metAt target.erasure), d = c := by
    intro d hd
    rcases List.mem_flatMap.mp hd with ⟨a, ha, hd⟩
    rcases List.mem_flatMap.mp hd with ⟨b, hb, hd⟩
    rcases honly.atPair _ d hd with ⟨hdefault, hat⟩
    exact hunique d hdefault _ hat ha hb
  have hfound : s.converters.find ctx source target = some (some c) := by
    rw [Converters.find, hctx, hcandidates]
    cases hmet : front.flatMap (s.metAt target.erasure) with
    | nil => simp [hmet] at hmem
    | cons d rest =>
      obtain rfl := hall d (hmet ▸ List.mem_cons_self)
      simp [Converters.firstAccepting, haccepts]
  rw [chooseConverter, hfound]
  rfl

/-! ## From strings -/

/-- The types that strings are converted to, with the names of the converters. -/
def stringTargets : List (Erasure × String) :=
  (NumericKind.boxes bootstrap).map (fun box => (.ofClass box.1, "StringToNumber")) ++
  [(.ofClass Bootstrap.wellKnown.boolean, "StringToBoolean"),
   (.ofClass Bootstrap.wellKnown.character, "StringToCharacter"),
   (.ofClass Bootstrap.wellKnown.string, "ObjectToString"),
   (.ofClass Bootstrap.wellKnown.enumClass, "StringToEnum"),
   ((Erasure.ofClass Bootstrap.wellKnown.object).array, "StringToArray"),
   (.ofClass Bootstrap.wellKnown.collection, "StringToCollection")]

section

variable {r : Registry}

theorem mem_stringTargets_of_pair (hbase : r.ExtendsBase) {c : Converter}
    (hc : c ∈ Builtin.defaults r) {pair : ConvertiblePair} (hpair : pair ∈ c.pairs.getD [])
    (hfrom : pair.source ∈ stringLineage) : (pair.target, c.name) ∈ stringTargets := by
  have hother : ∀ e ∈ [.ofClass r.wellKnown.number, .ofClass r.wellKnown.enumClass,
      Builtin.collectionInterface r, Builtin.anyArray r], e ∉ stringLineage :=
    fun e => hbase.not_mem_stringLineage
  simp only [Builtin.defaults, List.mem_cons, List.not_mem_nil, or_false] at hc
  -- one case for each converter, in the order in which they are registered
  rcases hc with rfl | rfl | rfl | rfl | rfl | rfl | rfl | rfl | rfl | rfl | rfl | rfl
  · rcases List.mem_map.mp hpair with ⟨box, hbox, rfl⟩
    have hboxes : NumericKind.boxes r = NumericKind.boxes bootstrap := by
      rw [NumericKind.boxes, hbase.wellKnown]
      rfl
    refine List.mem_append_left _ (List.mem_map.mpr ⟨box, hboxes ▸ hbox, rfl⟩)
  all_goals
    obtain rfl := List.mem_singleton.mp hpair
    refine List.mem_append_right _ ?_
  · simp [Builtin.stringToBoolean, hbase.wellKnown]
  -- the entry is written out: unfolded, this converter brings in the proofs of its code points
  · change (Erasure.ofClass r.wellKnown.character, "StringToCharacter") ∈ _
    simp [hbase.wellKnown]
  · exact absurd hfrom (hother _ (by simp))
  · simp [Builtin.objectToString, hbase.wellKnown]
  · simp [Builtin.stringToEnum, hbase.wellKnown]
  · simp [Builtin.stringToArray, Builtin.anyArray, object, hbase.wellKnown]
  · exact absurd hfrom (hother _ (by simp))
  · simp [Builtin.stringToCollection, Builtin.collectionInterface, hbase.wellKnown]
  · exact absurd hfrom (hother _ (by simp))
  · exact absurd hfrom (hother _ (by simp))
  · exact absurd hfrom (hother _ (by simp))

theorem string_mem_classHierarchy (hbase : r.ExtendsBase) :
    Builtin.stringClass r ∈ r.classHierarchy (Builtin.stringClass r) := by
  have hstring := boxed_mem_classHierarchy r (Builtin.stringClass r)
  rwa [Builtin.stringClass, hbase.boxed_of_mem_stringLineage hbase.string_mem_stringLineage]
    at hstring

/-- A converter from strings is met first where none of their other targets is met. -/
theorem meetsFirst_of_target (hbase : r.ExtendsBase) {t e : Erasure} {c : Converter}
    (hc : c ∈ Builtin.defaults r) (hpair : ⟨Builtin.stringClass r, e⟩ ∈ c.pairs.getD [])
    (hmet : e ∈ r.classHierarchy t)
    (hunique : ∀ entry ∈ stringTargets, entry.1 ∈ r.classHierarchy t → entry.1 = e) :
    MeetsFirst r (Builtin.stringClass r) t c := by
  have hnames : ∀ p ∈ stringTargets, ∀ q ∈ stringTargets, p.1 = q.1 → p.2 = q.2 := by decide
  refine ⟨_, [], (List.append_nil _).symm,
    ⟨hc, _, hpair, string_mem_classHierarchy hbase, hmet⟩, ?_⟩
  intro d hd pair hpair' hfrom hto
  have hentry := mem_stringTargets_of_pair hbase hd hpair'
    (hbase.mem_stringLineage_of_mem_classHierarchy hfrom)
  have hentry' := mem_stringTargets_of_pair hbase hc hpair hbase.string_mem_stringLineage
  exact Builtin.eq_of_name_eq hd hc (hnames _ hentry _ hentry' (hunique _ hentry hto))

/-- Boxes, and the primitives that they box, meet no other target of strings. -/
theorem meetsFirst_box (hbase : r.ExtendsBase) {t : Erasure} {b : ClassId}
    (hb : b ∈ r.wellKnown.boxes.map (·.2)) (ht : r.boxed t = .ofClass b) {c : Converter}
    (hc : c ∈ Builtin.defaults r)
    (hpair : ⟨Builtin.stringClass r, .ofClass b⟩ ∈ c.pairs.getD []) :
    MeetsFirst r (Builtin.stringClass r) t c := by
  have hbootstrap : ∀ b ∈ Bootstrap.wellKnown.boxes.map (·.2),
      (bootstrap.class? b).isSome = true ∧ ∀ entry ∈ stringTargets,
        entry.1 ∈ bootstrap.classHierarchy (.ofClass b) → entry.1 = .ofClass b := by
    decide
  rw [hbase.wellKnown] at hb
  rcases hbootstrap b hb with ⟨hdeclared, hunique⟩
  have hmet := boxed_mem_classHierarchy r t
  rw [ht] at hmet
  refine meetsFirst_of_target hbase hc hpair hmet ?_
  rw [← hbase.classHierarchy_boxed t, ht,
    hbase.classHierarchy_eq (ExtendsBase.isBase_of_isSome hdeclared)]
  exact hunique

/-- Arrays meet no other target of strings than arrays of the top class. -/
theorem meetsFirst_array (hbase : r.ExtendsBase) {t : Erasure} (ht : t.isArray = true) :
    MeetsFirst r (Builtin.stringClass r) t (Builtin.stringToArray r) := by
  rcases exists_classHierarchy_of_isArray (r := r) ht with ⟨entries, hsplit, hmet, harrays⟩
  have htargets : ∀ entry ∈ stringTargets, entry.1.isArray = true →
      entry.1 = (Erasure.ofClass Bootstrap.wellKnown.object).array := by decide
  have hobject : ∀ entry ∈ stringTargets, entry.1 ≠ .ofClass Bootstrap.wellKnown.object := by
    decide
  have hany : Builtin.anyArray r = (Erasure.ofClass Bootstrap.wellKnown.object).array := by
    rw [Builtin.anyArray, object, hbase.wellKnown]
  refine meetsFirst_of_target hbase (e := Builtin.anyArray r) (by simp [Builtin.defaults])
    List.mem_cons_self ?_ ?_
  · rw [hsplit]
    exact List.mem_append_left _ hmet
  · intro entry hentry hentry'
    rw [hsplit] at hentry'
    rcases List.mem_append.mp hentry' with h | h
    · exact (htargets entry hentry (harrays _ h)).trans hany.symm
    · refine absurd (List.mem_singleton.mp h) ?_
      rw [object, hbase.wellKnown]
      exact hobject entry hentry

/-- Lists meet no other target of strings than collections. -/
theorem meetsFirst_list (hbase : r.ExtendsBase) :
    MeetsFirst r (Builtin.stringClass r) (.ofClass r.wellKnown.list)
      (Builtin.stringToCollection r) := by
  have hhierarchy : r.classHierarchy (.ofClass r.wellKnown.list) =
      bootstrap.classHierarchy (.ofClass Bootstrap.wellKnown.list) := by
    rw [hbase.wellKnown]
    exact hbase.classHierarchy_eq (ExtendsBase.isBase_of_isSome rfl)
  refine meetsFirst_of_target hbase (e := Builtin.collectionInterface r)
    (by simp [Builtin.defaults]) List.mem_cons_self ?_ ?_
  all_goals
    rw [hhierarchy, Builtin.collectionInterface, hbase.wellKnown]
    decide

/-! ## To strings -/

/-- What is neither an array nor a collection has its own text. -/
theorem meetsFirst_text (hbase : r.ExtendsBase) {e : Erasure}
    (harray : Builtin.anyArray r ∉ r.classHierarchy e)
    (hcollection : Builtin.collectionInterface r ∉ r.classHierarchy e) :
    MeetsFirst r e (Builtin.stringClass r) (Builtin.objectToString r) := by
  refine ⟨_, [], (List.append_nil _).symm, ⟨by simp [Builtin.defaults], _, List.mem_cons_self,
    object_mem_classHierarchy r e, string_mem_classHierarchy hbase⟩, ?_⟩
  intro d hd pair hpair hfrom hto
  rcases textConverter_of_pair hbase hd hpair
    (hbase.mem_stringLineage_of_mem_classHierarchy hto) with rfl | ⟨-, hsource⟩ | ⟨-, hsource⟩
  · rfl
  · exact absurd (hsource ▸ hfrom) harray
  · exact absurd (hsource ▸ hfrom) hcollection

/-- The values of boxes have their own texts. -/
theorem meetsFirst_boxText (hbase : r.ExtendsBase) {b : ClassId}
    (hb : b ∈ r.wellKnown.boxes.map (·.2)) :
    MeetsFirst r (.ofClass b) (Builtin.stringClass r) (Builtin.objectToString r) := by
  have hbootstrap : ∀ b ∈ Bootstrap.wellKnown.boxes.map (·.2),
      (bootstrap.class? b).isSome = true ∧
        (Erasure.ofClass Bootstrap.wellKnown.object).array ∉
          bootstrap.classHierarchy (.ofClass b) ∧
        .ofClass Bootstrap.wellKnown.collection ∉ bootstrap.classHierarchy (.ofClass b) := by
    decide
  rw [hbase.wellKnown] at hb
  rcases hbootstrap b hb with ⟨hdeclared, harray, hcollection⟩
  rw [← hbase.classHierarchy_eq (ExtendsBase.isBase_of_isSome hdeclared), ← hbase.wellKnown]
    at harray hcollection
  exact meetsFirst_text hbase harray hcollection

/-- The texts of arrays are joined. -/
theorem meetsFirst_arrayText (hbase : r.ExtendsBase) {e : Erasure} (he : e.isArray = true) :
    MeetsFirst r e (Builtin.stringClass r) (Builtin.arrayToString r) := by
  rcases exists_classHierarchy_of_isArray (r := r) he with ⟨entries, hsplit, hmet, harrays⟩
  refine ⟨entries, _, hsplit, ⟨by simp [Builtin.defaults], _, List.mem_cons_self, hmet,
    string_mem_classHierarchy hbase⟩, ?_⟩
  intro d hd pair hpair hfrom hto
  rcases textConverter_of_pair hbase hd hpair
    (hbase.mem_stringLineage_of_mem_classHierarchy hto) with rfl | ⟨rfl, -⟩ | ⟨-, hsource⟩
  · obtain rfl := List.mem_singleton.mp hpair
    exact absurd (harrays _ hfrom) (by simp [object])
  · rfl
  · rw [hsource] at hfrom
    exact absurd (harrays _ hfrom) (by simp [Builtin.collectionInterface])

/-- The texts of array lists are joined. -/
theorem meetsFirst_listText (hbase : r.ExtendsBase) :
    MeetsFirst r (.ofClass r.wellKnown.arrayList) (Builtin.stringClass r)
      (Builtin.collectionToString r) := by
  have hbootstrap : ∃ front, bootstrap.classHierarchy (.ofClass Bootstrap.wellKnown.arrayList) =
      front ++ [.ofClass Bootstrap.wellKnown.object] ∧
      .ofClass Bootstrap.wellKnown.collection ∈ front ∧
      (Erasure.ofClass Bootstrap.wellKnown.object).array ∉ front ∧
      .ofClass Bootstrap.wellKnown.object ∉ front := by
    refine ⟨(bootstrap.classHierarchy (.ofClass Bootstrap.wellKnown.arrayList)).dropLast, ?_⟩
    decide
  rcases hbootstrap with ⟨front, hsplit, hmet, harray, hobject⟩
  have hhierarchy : r.classHierarchy (.ofClass r.wellKnown.arrayList) =
      front ++ [.ofClass Bootstrap.wellKnown.object] := by
    rw [hbase.wellKnown, hbase.classHierarchy_eq (ExtendsBase.isBase_of_isSome rfl)]
    exact hsplit
  rw [← hbase.wellKnown] at hmet harray hobject
  refine ⟨front, _, hhierarchy, ⟨by simp [Builtin.defaults], _, List.mem_cons_self, hmet,
    string_mem_classHierarchy hbase⟩, ?_⟩
  intro d hd pair hpair hfrom hto
  rcases textConverter_of_pair hbase hd hpair
    (hbase.mem_stringLineage_of_mem_classHierarchy hto) with rfl | ⟨-, hsource⟩ | ⟨rfl, -⟩
  · obtain rfl := List.mem_singleton.mp hpair
    exact absurd hfrom hobject
  · rw [hsource] at hfrom
    exact absurd hfrom harray
  · rfl

end

/-! ## Enums -/

/--
An enum that is no collection, and that has no classes above it but the class of enums and the top
class; it may implement interfaces.
-/
structure IsPlainEnum (r : Registry) (c : ClassId) : Prop where
  isEnum : r.isEnum (.ofClass c) = true
  superclasses : ∀ a, r.IsBelow (.ofClass c) a → r.isInterface a = false →
    a = .ofClass c ∨ a = .ofClass r.wellKnown.enumClass ∨ a = r.object
  notCollection : r.isSubclass (.ofClass r.wellKnown.collection) (.ofClass c) = false

namespace IsPlainEnum

variable {r : Registry} {c : ClassId}

/-- Enums are boxed as themselves, and nothing else is boxed as one. -/
theorem eq_of_boxed (hbase : r.ExtendsBase) (h : IsPlainEnum r c) {e : Erasure}
    (he : r.boxed e = .ofClass c) : e = .ofClass c := by
  rcases ExtendsBase.eq_or_mem_boxes_of_boxed he with rfl | ⟨p, -, hbox⟩
  · rfl
  · have hscalar : .ofClass c ∈ scalarLineage := by
      rw [hbase.wellKnown] at hbox
      refine List.mem_map_of_mem (List.mem_append_left _ (List.mem_append_right _ ?_))
      exact List.mem_map.mpr ⟨_, hbox, rfl⟩
    have henum := h.isEnum
    rw [hbase.isEnum_of_mem_scalarLineage hscalar] at henum
    exact absurd henum Bool.false_ne_true

/-- Primitives are not above enums. -/
theorem isPrimitive_eq_false (hbase : r.ExtendsBase) (h : IsPlainEnum r c) {a : Erasure}
    (ha : r.IsBelow (.ofClass c) a) : r.isPrimitive a = false := by
  have hbootstrap : ∀ k ∈ [Bootstrap.wellKnown.enumClass, Bootstrap.wellKnown.object],
      (bootstrap.class? k).isSome = true ∧ bootstrap.isPrimitive (.ofClass k) = false := by
    decide
  have hbootstrap' : ∀ k ∈ [r.wellKnown.enumClass, r.wellKnown.object],
      r.isPrimitive (.ofClass k) = false := by
    intro k hk
    rw [hbase.wellKnown] at hk
    rcases hbootstrap k hk with ⟨hdeclared, hplain⟩
    exact (hbase.hasKind_eq .primitive (ExtendsBase.isBase_of_isSome hdeclared)).trans hplain
  cases hinterface : r.isInterface a with
  | true => exact isPrimitive_of_isInterface hinterface
  | false =>
    rcases h.superclasses a ha hinterface with rfl | rfl | rfl
    · exact isPrimitive_of_isConcrete (by rw [isConcrete, h.isEnum, Bool.or_true])
    · exact hbootstrap' _ (by simp)
    · exact hbootstrap' _ (by simp)

/-- No class but the enum, that of enums and the top class is met; interfaces are met from below. -/
theorem mem_classHierarchy_cases (hbase : r.ExtendsBase) (h : IsPlainEnum r c) {e : Erasure}
    (he : e ∈ r.classHierarchy (.ofClass c)) :
    e = .ofClass c ∨ e = .ofClass r.wellKnown.enumClass ∨ e = r.object ∨
      r.isInterface e = true ∧ r.IsBelow (.ofClass c) e := by
  have hboxed : ∀ a, r.IsBelow (.ofClass c) a → r.boxed a = a := by
    intro a ha
    rcases boxed_cases r a with ⟨b, hb, rfl, -⟩ | ⟨-, hself⟩
    · have hplain := h.isPrimitive_eq_false hbase ha
      exact absurd ((hbase.isPrimitive_of_mem_boxes hb).1.symm.trans hplain) (by decide)
    · exact hself
  have hclimbed : ∀ x ∈ r.climbHierarchy false r.searchSteps [.ofClass c] [.ofClass c],
      r.IsBelow (.ofClass c) x := by
    refine forall_mem_climbHierarchy ?_ (by simpa using .refl)
    intro x k hx hk s hs
    obtain rfl : r.boxed x = k := by simpa [climbingEntry] using hk
    rw [hboxed x hx] at hs
    exact hx.tail (climbedSupertypes_subset _ hs)
  have hbelow : r.IsBelow (.ofClass c) e ∨ e = .ofClass r.wellKnown.enumClass ∨ e = r.object := by
    rw [classHierarchy, h.isEnum, hboxed _ .refl] at he
    simpa [mem_appendNew_iff, liftErasure, or_assoc] using
      ((mem_appendNew_iff ..).mp he).imp_left fun he =>
        ((mem_appendNew_iff ..).mp he).imp_left fun he =>
          ((mem_appendNew_iff ..).mp he).imp_left (hclimbed e)
  rcases hbelow with hbelow | henum | hobject
  · cases hinterface : r.isInterface e with
    | true => exact .inr (.inr (.inr ⟨rfl, hbelow⟩))
    | false =>
      rcases h.superclasses e hbelow hinterface with hself | henum | hobject
      · exact .inl hself
      · exact .inr (.inl henum)
      · exact .inr (.inr (.inl hobject))
  · exact .inr (.inl henum)
  · exact .inr (.inr (.inl hobject))

/-- Collections are not met. -/
theorem collection_not_mem (hbase : r.ExtendsBase) (h : IsPlainEnum r c) :
    Builtin.collectionInterface r ∉ r.classHierarchy (.ofClass c) := by
  have hbootstrap : (bootstrap.class? Bootstrap.wellKnown.collection).isSome = true ∧
      bootstrap.isPrimitive (.ofClass Bootstrap.wellKnown.collection) = false ∧
      Bootstrap.wellKnown.collection ≠ Bootstrap.wellKnown.enumClass ∧
      Bootstrap.wellKnown.collection ≠ Bootstrap.wellKnown.object := by
    decide
  rcases hbootstrap with ⟨hdeclared, hplain, henum, hobject⟩
  have hnot := h.notCollection
  intro hmem
  rcases h.mem_classHierarchy_cases hbase hmem with hself | heq | heq | ⟨-, hbelow⟩
  · rw [← hself, Builtin.collectionInterface, isSubclass_self] at hnot
    exact Bool.false_ne_true hnot.symm
  · rw [Builtin.collectionInterface, hbase.wellKnown] at heq
    exact henum (congrArg Erasure.element heq)
  · rw [Builtin.collectionInterface, object, hbase.wellKnown] at heq
    exact hobject (congrArg Erasure.element heq)
  · refine Bool.false_ne_true (hnot.symm.trans ((isSubclass_iff_of_classes rfl rfl).mpr (.inr ?_)))
    exact ⟨h.isPrimitive_eq_false hbase hbelow, h.isPrimitive_eq_false hbase .refl, .inr hbelow⟩

/-- Arrays are not met. -/
theorem array_not_mem (hbase : r.ExtendsBase) (h : IsPlainEnum r c) {e : Erasure}
    (he : e.isArray = true) : e ∉ r.classHierarchy (.ofClass c) := by
  intro hmem
  rcases h.mem_classHierarchy_cases hbase hmem with rfl | rfl | rfl | ⟨hinterface, -⟩
  · exact Bool.false_ne_true he
  · exact Bool.false_ne_true he
  · exact Bool.false_ne_true he
  · rw [isArray_of_hasKind hinterface] at he
    exact Bool.false_ne_true he

/-- Enums meet no other target of strings than the class of enums. -/
theorem meetsFirst_constant (hbase : r.ExtendsBase) (h : IsPlainEnum r c) {t : Erasure}
    (ht : r.boxed t = .ofClass c) :
    MeetsFirst r (Builtin.stringClass r) t (Builtin.stringToEnum r) := by
  have htargets : ∀ entry ∈ stringTargets,
      entry.1 = .ofClass Bootstrap.wellKnown.enumClass ∨ entry.1.isArray = true ∨
        entry.1 = .ofClass Bootstrap.wellKnown.collection ∨
        (entry.1.isArray = false ∧ (bootstrap.class? entry.1.element).isSome = true) ∧
          bootstrap.isEnum entry.1 = false ∧
          bootstrap.isInterface entry.1 = false ∧
          entry.1 ≠ .ofClass Bootstrap.wellKnown.object := by
    decide
  obtain rfl := h.eq_of_boxed hbase ht
  refine meetsFirst_of_target hbase (e := .ofClass r.wellKnown.enumClass)
    (by simp [Builtin.defaults]) List.mem_cons_self ?_ ?_
  · rw [classHierarchy, h.isEnum]
    simp [mem_appendNew_iff]
  · intro entry hentry hmet
    rcases htargets entry hentry with
      heq | harray | heq | ⟨⟨hplain, hdeclared⟩, henum, hclass, hobject⟩
    · rw [hbase.wellKnown]
      exact heq
    · exact absurd hmet (h.array_not_mem hbase harray)
    · rw [heq, ← hbase.wellKnown] at hmet
      exact absurd hmet (h.collection_not_mem hbase)
    · obtain ⟨k, hk⟩ := exists_eq_ofClass hplain
      rw [hk] at hdeclared henum hclass hobject hmet ⊢
      have hdefined : IsBase (.ofClass k) := ExtendsBase.isBase_of_isSome hdeclared
      rcases h.mem_classHierarchy_cases hbase hmet with heq | heq | heq | ⟨hinterface, -⟩
      · have hself := h.isEnum
        rw [← heq, Registry.isEnum, hbase.hasKind_eq _ hdefined] at hself
        exact absurd (hself.symm.trans henum) (by decide)
      · exact heq
      · rw [object, hbase.wellKnown] at heq
        exact absurd heq hobject
      · rw [isInterface, hbase.hasKind_eq _ hdefined] at hinterface
        exact absurd (hinterface.symm.trans hclass) (by decide)

/-- Constants have their own texts. -/
theorem meetsFirst_constantText (hbase : r.ExtendsBase) (h : IsPlainEnum r c) :
    MeetsFirst r (.ofClass c) (Builtin.stringClass r) (Builtin.objectToString r) :=
  meetsFirst_text hbase (h.array_not_mem hbase (isArray_array _)) (h.collection_not_mem hbase)

end IsPlainEnum

end ConversionService

end TypeConversion
