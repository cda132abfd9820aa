import TypeConversion.Proofs.Conversion.Soundness
import TypeConversion.Proofs.Dispatch.Strings

/-!
# Converting twice

What a service with built-in converters makes of a value for a target it leaves alone when it is to
convert it to the same target again.

The second search starts from the type of the result.  That has *settled*: both it and the target
are arrays or none is, they hold no numbers of different kinds, and neither is the class of strings.
Between such types every converter that is met turns the value down, and so it passes through if it
is assignable.  Only for strings there may be a converter after all, and that gives the text back.

**Results**

* `refuses_of_settled`: between settled types there is no converter;
* `settled_of_builtin`: what the built-in converters give has settled, or is a string;
* `convert_idempotent`: so what is converted twice is what is converted once, or an array of elements
  that have the most dimensions there may be;
* `overlong_not_idempotent`: such an array need not be kept.
-/

namespace TypeConversion

open Attempt Registry

namespace ConversionService

/-! ## Settled types -/

/-- Two types between which no built-in converter is needed, nor found. -/
structure Settled (r : Registry) (target found : Erasure) : Prop where
  shape : found.isArray = target.isArray
  kind : ∀ k k', NumericKind.ofErasure? r found = some k →
    NumericKind.ofErasure? r target = some k' → k = k'
  notFromString : found ≠ .ofClass r.wellKnown.string
  notToString : target ≠ .ofClass r.wellKnown.string

section Settled

variable {r : Registry}

theorem settled_self {e : Erasure} (h : e ≠ .ofClass r.wellKnown.string) : Settled r e e where
  shape := rfl
  kind _ _ hk hk' := Option.some.inj (hk.symm.trans hk')
  notFromString := h
  notToString := h

/-- Final classes are their own boxes. -/
theorem boxed_of_mem_finalClasses (hbase : r.ExtendsBase) {f : ClassId}
    (hf : f ∈ r.wellKnown.finalClasses) : r.boxed (.ofClass f) = .ofClass f := by
  have hbootstrap : ∀ f ∈ Bootstrap.wellKnown.finalClasses,
      bootstrap.boxed (.ofClass f) = .ofClass f := by decide +kernel
  rw [hbase.wellKnown] at hf
  exact (hbase.boxed_eq _).trans (hbootstrap f hf)

/-- A box has settled for what it boxes. -/
theorem settled_of_boxed (hbase : r.ExtendsBase) {target : Erasure} {f : ClassId}
    (hf : f ∈ r.wellKnown.boxes.map (·.2)) (hbox : r.boxed target = .ofClass f) :
    Settled r target (.ofClass f) where
  shape := by
    rcases ExtendsBase.eq_or_mem_boxes_of_boxed hbox with rfl | ⟨p, rfl, -⟩
    · rfl
    · rfl
  kind _ _ hk hk' := by
    have hself := boxed_of_mem_finalClasses hbase (List.mem_cons_of_mem _ hf)
    rw [NumericKind.ofErasure?, hself, ← hbox] at hk
    exact Option.some.inj (hk.symm.trans hk')
  notFromString h :=
    hbase.not_mem_stringLineage_of_mem_boxes hf (h ▸ hbase.string_mem_stringLineage)
  notToString h := by
    rw [h, hbase.boxed_of_mem_stringLineage hbase.string_mem_stringLineage] at hbox
    exact hbase.not_mem_stringLineage_of_mem_boxes hf (hbox ▸ hbase.string_mem_stringLineage)

/--
The built-in converters are from or to strings, between numbers, or from arrays to collections and
back.
-/
theorem pair_cases {c : Converter} (hc : c ∈ Builtin.defaults r) {pair : ConvertiblePair}
    (hpair : pair ∈ c.pairs.getD []) :
    pair.source = Builtin.stringClass r ∨ pair.target = Builtin.stringClass r ∨
      c = Builtin.numberToNumber r ∨
      pair = ⟨Builtin.anyArray r, Builtin.collectionInterface r⟩ ∨
      pair = ⟨Builtin.collectionInterface r, Builtin.anyArray r⟩ := by
  simp only [Builtin.defaults, List.mem_cons, List.not_mem_nil, or_false] at hc
  rcases hc with rfl | rfl | rfl | rfl | rfl | rfl | rfl | rfl | rfl | rfl | rfl | rfl
  · rcases List.mem_map.mp hpair with ⟨box, -, rfl⟩
    exact .inl rfl
  all_goals
    obtain rfl := List.mem_singleton.mp hpair
    simp [Builtin.stringClass]

/-- Between settled types every built-in converter that is met turns the value down. -/
theorem refuses_of_settled (hbase : r.ExtendsBase) (hi : r.RegularInheritance)
    {ctx : ConversionContext} {source target : TypeDescriptor} (htarget : target.registry = r)
    (h : Settled r target.erasure source.erasure) {c : Converter} (hc : c ∈ Builtin.defaults r)
    {pair : ConvertiblePair} (hpair : pair ∈ c.pairs.getD [])
    (hfrom : pair.source ∈ r.classHierarchy source.erasure)
    (hto : pair.target ∈ r.classHierarchy target.erasure) :
    Converters.Refuses ctx source target c := by
  -- arrays have no collections above them, and nothing else has arrays above it
  have hcross : ∀ {e e' : Erasure}, e.isArray = e'.isArray →
      Builtin.anyArray r ∈ r.classHierarchy e →
      Builtin.collectionInterface r ∉ r.classHierarchy e' := by
    intro e e' hshape harray
    have he := isArray_of_mem_classHierarchy hbase hi (isArray_array _) harray
    refine not_mem_classHierarchy_of_isArray (hshape.symm.trans he) ?_ ?_
    all_goals
      rw [hbase.wellKnown]
      decide
  rcases pair_cases hc hpair with heq | heq | rfl | rfl | rfl
  · rw [heq] at hfrom
    exact absurd (hbase.eq_string_of_mem_classHierarchy hi hfrom) h.notFromString
  · rw [heq] at hto
    exact absurd (hbase.eq_string_of_mem_classHierarchy hi hto) h.notToString
  · subst htarget
    simp only [Converters.Refuses, Converter.accepts, Builtin.numberToNumber]
    split
    · rename_i k k' hk hk'
      simp [h.kind k k' hk hk']
    · rfl
  · exact absurd hto (hcross h.shape hfrom)
  · exact absurd hfrom (hcross h.shape.symm hto)

/-- The class that a collection is built as has settled. -/
theorem settled_of_collectionClass (hbase : r.ExtendsBase) {e : Erasure} {c : ClassId}
    (h : r.collectionClass e = .ok c) : Settled r e (.ofClass c) := by
  have hne : e ≠ .ofClass r.wellKnown.string := by
    rintro rfl
    exact hbase.collectionClass_string c h
  have hbuilt : ∀ b ∈ [Bootstrap.wellKnown.linkedHashSet, Bootstrap.wellKnown.arrayList],
      NumericKind.ofErasure? bootstrap (.ofClass b) = none ∧ b ≠ Bootstrap.wellKnown.string := by
    decide +kernel
  rcases collectionClass_cases h with ⟨harray, hc⟩
  have hc : (c = r.wellKnown.linkedHashSet ∨ c = r.wellKnown.arrayList) ∨ e = .ofClass c := by
    rcases hc with ⟨-, -, hc⟩ | ⟨-, -, -, hc⟩ | ⟨-, hc⟩
    · exact .inl (.inl hc)
    · exact .inl (.inr hc)
    · exact .inr hc
  rcases hc with hc | rfl
  · rcases hbuilt c (by simpa [hbase.wellKnown] using hc) with ⟨hnone, hstring⟩
    refine ⟨harray.symm, ?_, ?_, hne⟩
    · intro k k' hk
      rw [NumericKind.ofErasure?_eq_bootstrap hbase, hnone] at hk
      simp at hk
    · rw [hbase.wellKnown]
      exact fun heq => hstring (congrArg Erasure.element heq)
  · exact settled_self hne

end Settled

/-! ## Values that are kept -/

/-- A converter turns a value down, or gives it back. -/
def Keeps (ctx : ConversionContext) (source target : TypeDescriptor) (v : Value)
    (c : Converter) : Prop :=
  Converters.Refuses ctx source target c ∨
    c.accepts ctx source target = some true ∧ (c.run ctx (some v) source target).Gives (some v)

section Idempotence

variable {s : ConversionService} {ctx : ConversionContext} {target : TypeDescriptor} {v : Value}

/-- Where no converter is found, assignable values pass through. -/
theorem chooseConverter_of_find_eq_none {source : TypeDescriptor}
    (hfallback : s.config.noOpFallback = true)
    (h : s.converters.find ctx source target = some none) :
    s.chooseConverter ctx source target =
      some (if s.registry.isAssignable target.erasure source.erasure then some .passThrough
        else none) := by
  rw [chooseConverter, h]
  cases hassignable : s.registry.isAssignable target.erasure source.erasure <;>
    simp [hfallback]

/-- A search ends without a converter, or at one that gives the value back. -/
theorem exists_find_of_keeps (hs : s.OnlyBuiltin) (hctx : ctx.registry = s.registry)
    {e : Erasure} (hkeeps : ∀ c ∈ s.converters.candidates s.registry e target.erasure,
      Keeps ctx (s.descriptor e) target v c) :
    ∃ found, s.converters.find ctx (s.descriptor e) target = some found ∧
      ∀ c ∈ found, (c.run ctx (some v) (s.descriptor e) target).Gives (some v) := by
  rw [Converters.find, Converters.firstAccepting_eq, hs.global, List.append_nil, hctx]
  split
  · exact ⟨none, rfl, by simp⟩
  · rename_i c hc
    have hstops := List.find?_some hc
    rw [Converters.stopsAt_iff_not_refuses] at hstops
    rcases hkeeps c (List.mem_of_find?_eq_some hc) with hrefuses | ⟨haccepts, hrun⟩
    · exact absurd hrefuses hstops
    · exact ⟨some c, by simp [haccepts], by simpa using hrun⟩

/-- What is given for a value is what the chosen converter gives, and null if there is none. -/
theorem convertIn_gives_of_chosen {chosen : Option Converter} {out : Option Value}
    (hchosen : s.chooseConverter ctx (s.descriptor (v.erasure s.registry)) target = some chosen)
    (hout : (chosen.elim (pure none) fun c =>
      c.run ctx (some v) (s.descriptor (v.erasure s.registry)) target).Gives out) :
    (s.convertIn ctx (some v) none target).Gives out := by
  refine (gives_bind_iff ..).mpr ⟨chosen, (gives_ofWalk_iff ..).mpr hchosen, ?_⟩
  cases chosen <;> exact hout

/-- A value that all candidates keep is converted to itself, or to null if it is not assignable. -/
theorem convertIn_of_keeps (hs : s.OnlyBuiltin) (hctx : ctx.registry = s.registry)
    (hfallback : s.config.noOpFallback = true)
    (hkeeps : ∀ c ∈ s.converters.candidates s.registry (v.erasure s.registry) target.erasure,
      Keeps ctx (s.descriptor (v.erasure s.registry)) target v c) :
    (s.convertIn ctx (some v) none target).Gives (some v) ∨
      s.registry.isAssignable target.erasure (v.erasure s.registry) = false ∧
        (s.convertIn ctx (some v) none target).Gives none := by
  rcases exists_find_of_keeps hs hctx hkeeps with ⟨found, hfound, hrun⟩
  cases found with
  | some c =>
    have hchosen : s.chooseConverter ctx (s.descriptor (v.erasure s.registry)) target =
        some (some c) := by
      rw [chooseConverter, hfound]
      rfl
    exact .inl (convertIn_gives_of_chosen hchosen (hrun c rfl))
  | none =>
    have hchosen := chooseConverter_of_find_eq_none hfallback hfound
    change _ = some (if s.registry.isAssignable target.erasure (v.erasure s.registry) then _
      else none) at hchosen
    cases hassignable : s.registry.isAssignable target.erasure (v.erasure s.registry) with
    | true =>
      rw [hassignable, if_pos rfl] at hchosen
      exact .inl (convertIn_gives_of_chosen hchosen ((gives_pure_iff ..).mpr rfl))
    | false =>
      rw [hassignable, if_neg Bool.false_ne_true] at hchosen
      exact .inr ⟨rfl, convertIn_gives_of_chosen hchosen ((gives_pure_iff ..).mpr rfl)⟩

/-- A value whose type has settled is converted to itself, or to null if it is not assignable. -/
theorem convertIn_of_settled (hbase : s.registry.ExtendsBase)
    (hi : s.registry.RegularInheritance) (hs : s.OnlyBuiltin) (hctx : ctx.registry = s.registry)
    (hfallback : s.config.noOpFallback = true) (htarget : target.registry = s.registry)
    (h : Settled s.registry target.erasure (v.erasure s.registry)) :
    (s.convertIn ctx (some v) none target).Gives (some v) ∨
      s.registry.isAssignable target.erasure (v.erasure s.registry) = false ∧
        (s.convertIn ctx (some v) none target).Gives none := by
  refine convertIn_of_keeps hs hctx hfallback fun c hc => .inl ?_
  rcases exists_pair_of_mem_candidates hs hc with ⟨hbuiltin, pair, hpair, hfrom, hto⟩
  exact refuses_of_settled hbase hi htarget h hbuiltin hpair hfrom hto

/-- Only the converters into texts are found where strings are asked for. -/
theorem textConverter_of_pair {r : Registry} (hbase : r.ExtendsBase) {c : Converter}
    (hc : c ∈ Builtin.defaults r) {pair : ConvertiblePair} (hpair : pair ∈ c.pairs.getD [])
    (hto : pair.target ∈ stringLineage) :
    c = Builtin.objectToString r ∨
      c = Builtin.arrayToString r ∧ pair.source = Builtin.anyArray r ∨
      c = Builtin.collectionToString r ∧ pair.source = Builtin.collectionInterface r := by
  have hbox : ∀ f ∈ r.wellKnown.boxes.map (·.2), .ofClass f ∉ stringLineage :=
    fun f => hbase.not_mem_stringLineage_of_mem_boxes
  have hother : ∀ e ∈ [.ofClass r.wellKnown.number, .ofClass r.wellKnown.enumClass,
      Builtin.collectionInterface r, Builtin.anyArray r], e ∉ stringLineage :=
    fun e => hbase.not_mem_stringLineage
  simp only [Builtin.defaults, List.mem_cons, List.not_mem_nil, or_false] at hc
  -- one case for each converter, in the order in which they are registered
  rcases hc with rfl | rfl | rfl | rfl | rfl | rfl | rfl | rfl | rfl | rfl | rfl | rfl
  · rcases List.mem_map.mp hpair with ⟨⟨box, kind⟩, hmem, rfl⟩
    obtain rfl := NumericKind.eq_box_of_mem_boxes hmem
    exact absurd hto (hbox _ (NumericKind.box_mem_boxes r kind))
  all_goals obtain rfl := List.mem_singleton.mp hpair
  · exact absurd hto (hbox _ (by simp [WellKnown.boxes]))
  · exact absurd hto (hbox _ (by simp [WellKnown.boxes]))
  · exact absurd hto (hother _ (by simp))
  · exact .inl rfl
  · exact absurd hto (hother _ (by simp))
  · exact absurd hto (hother _ (by simp))
  · exact .inr (.inl ⟨rfl, rfl⟩)
  · exact absurd hto (hother _ (by simp))
  · exact .inr (.inr ⟨rfl, rfl⟩)
  · exact absurd hto (hother _ (by simp))
  · exact absurd hto (hother _ (by simp))

/-- Between strings there is no converter but the one from anything to its text. -/
theorem eq_objectToString_of_pair {r : Registry} (hbase : r.ExtendsBase) {c : Converter}
    (hc : c ∈ Builtin.defaults r) {pair : ConvertiblePair} (hpair : pair ∈ c.pairs.getD [])
    (hfrom : pair.source ∈ stringLineage) (hto : pair.target ∈ stringLineage) :
    c = Builtin.objectToString r := by
  have hother : ∀ e ∈ [Builtin.collectionInterface r, Builtin.anyArray r], e ∉ stringLineage :=
    fun e he => hbase.not_mem_stringLineage (by
      simp only [List.mem_cons] at he ⊢
      exact .inr (.inr he))
  rcases textConverter_of_pair hbase hc hpair hto with rfl | ⟨-, hsource⟩ | ⟨-, hsource⟩
  · rfl
  · exact absurd hfrom (hother _ (by simp [hsource]))
  · exact absurd hfrom (hother _ (by simp [hsource]))

/-- A string is converted to itself where strings are asked for. -/
theorem convertIn_string (hbase : s.registry.ExtendsBase) (hs : s.OnlyBuiltin)
    (hctx : ctx.registry = s.registry) (hfallback : s.config.noOpFallback = true)
    (htarget : target.erasure = .ofClass s.registry.wellKnown.string) (text : String) :
    (s.convertIn ctx (some (.string text)) none target).Gives (some (.string text)) := by
  have hkept : ∀ c ∈ s.converters.candidates s.registry (.ofClass s.registry.wellKnown.string)
      target.erasure, Keeps ctx (s.descriptor (.ofClass s.registry.wellKnown.string)) target
        (.string text) c := by
    intro c hc
    rcases exists_pair_of_mem_candidates hs hc with ⟨hbuiltin, pair, hpair, hfrom, hto⟩
    rw [htarget] at hto
    obtain rfl := eq_objectToString_of_pair hbase hbuiltin hpair
      (hbase.mem_stringLineage_of_mem_classHierarchy hfrom)
      (hbase.mem_stringLineage_of_mem_classHierarchy hto)
    exact .inr ⟨rfl, (gives_pure_iff _ _).mpr rfl⟩
  rcases convertIn_of_keeps (v := .string text) hs hctx hfallback hkept with hgives | ⟨hnot, -⟩
  · exact hgives
  · simp [htarget, Value.erasure] at hnot

/-! ## Results have settled -/

variable {result : Value}

/-- An array that is built for an array has settled. -/
theorem settled_of_buildsArray (harray : target.isArray = true)
    (h : Builtin.BuildsArray ctx target result) :
    Settled s.registry target.erasure (result.erasure s.registry) := by
  rcases h with ⟨element, elements, -, rfl, -⟩
  have hresult : element.erasure.array.isArray = true := isArray_array _
  have hclass : ∀ {e : Erasure} (c : ClassId), e.isArray = true → e ≠ .ofClass c := by
    rintro e c he rfl
    simp at he
  refine ⟨hresult.trans harray.symm, fun k k' hk => ?_, hclass _ hresult, hclass _ harray⟩
  rw [Value.erasure, NumericKind.ofErasure?_of_isArray hresult] at hk
  simp at hk

theorem settled_of_buildsCollection (hbase : s.registry.ExtendsBase)
    (hctx : ctx.registry = s.registry) (h : Builtin.BuildsCollection ctx target result) :
    Settled s.registry target.erasure (result.erasure s.registry) := by
  rcases h with ⟨element, c, elements, -, hc, rfl, -⟩
  rw [hctx] at hc
  exact settled_of_collectionClass hbase hc

theorem settled_of_kind (hbase : s.registry.ExtendsBase) (ht : target.Consistent s.registry)
    (h : ∃ kind, NumericKind.ofErasure? target.registry target.erasure = some kind ∧
      result.erasure target.registry = .ofClass (kind.box target.registry)) :
    Settled s.registry target.erasure (result.erasure s.registry) := by
  rcases h with ⟨kind, hkind, hresult⟩
  rw [ht.registry] at hkind hresult
  rw [hresult]
  exact settled_of_boxed hbase (NumericKind.box_mem_boxes ..)
    (NumericKind.boxed_of_ofErasure? hkind)

/-- What a built-in converter gives has settled, or it is a string where strings are asked for. -/
theorem settled_of_builtin (hbase : s.registry.ExtendsBase)
    (hi : s.registry.RegularInheritance) (hctx : ctx.registry = s.registry)
    (ht : target.Consistent s.registry) {c : Converter}
    (hc : c ∈ Builtin.defaults s.registry) {pair : ConvertiblePair}
    (hpair : pair ∈ c.pairs.getD [])
    (hmem : pair.target ∈ s.registry.classHierarchy target.erasure)
    {value : Option Value} {source : TypeDescriptor}
    (hrun : (c.run ctx value source target).Gives (some result)) :
    Settled s.registry target.erasure (result.erasure s.registry) ∨
      target.erasure = .ofClass s.registry.wellKnown.string ∧ ∃ text, result = .string text := by
  have harray : Builtin.anyArray s.registry ∈ s.registry.classHierarchy target.erasure →
      target.isArray = true :=
    isArray_of_mem_classHierarchy hbase hi (isArray_array _)
  have hbox : ∀ f, pair.target = .ofClass f → f ∈ s.registry.wellKnown.boxes.map (·.2) →
      Settled s.registry target.erasure (.ofClass f) := by
    intro f hf hbox
    exact settled_of_boxed hbase hbox
      (boxed_eq_of_mem_classHierarchy hbase hi (List.mem_cons_of_mem _ hbox) (hf ▸ hmem))
  have htext : pair.target = .ofClass s.registry.wellKnown.string →
      target.erasure = .ofClass s.registry.wellKnown.string := by
    intro hstring
    exact hbase.eq_string_of_mem_classHierarchy hi (hstring ▸ hmem)
  simp only [Builtin.defaults, List.mem_cons, List.not_mem_nil, or_false] at hc
  -- one case for each converter, in the order in which they are registered
  rcases hc with rfl | rfl | rfl | rfl | rfl | rfl | rfl | rfl | rfl | rfl | rfl | rfl
  · exact .inl (settled_of_kind hbase ht (Builtin.stringToNumber_gives hrun))
  · rcases Builtin.stringToBoolean_gives hrun with ⟨b, rfl⟩
    obtain rfl := List.mem_singleton.mp hpair
    exact .inl (hbox _ rfl (by simp [WellKnown.boxes]))
  · rcases Builtin.stringToCharacter_gives hrun with ⟨c, rfl⟩
    obtain rfl := List.mem_singleton.mp hpair
    exact .inl (hbox _ rfl (by simp [WellKnown.boxes]))
  · exact .inl (settled_of_kind hbase ht (Builtin.numberToNumber_gives hrun))
  · obtain rfl := List.mem_singleton.mp hpair
    rcases Builtin.objectToString_gives hrun with ⟨v, -, rfl⟩
    exact .inr ⟨htext rfl, _, rfl⟩
  · rcases Builtin.stringToEnum_gives hrun with ⟨henum, hresult⟩
    rw [ht.registry] at henum hresult
    rw [hresult]
    refine .inl (settled_self fun hstring => ?_)
    rw [hstring, hbase.isEnum_string] at henum
    exact Bool.false_ne_true henum
  · obtain rfl := List.mem_singleton.mp hpair
    exact .inl (settled_of_buildsArray (harray hmem) (Builtin.stringToArray_gives hrun))
  · obtain rfl := List.mem_singleton.mp hpair
    rcases Builtin.arrayToString_gives hrun with ⟨_, _, text, -, -, rfl⟩
    exact .inr ⟨htext rfl, text, rfl⟩
  · exact .inl (settled_of_buildsCollection hbase hctx (Builtin.stringToCollection_gives hrun))
  · obtain rfl := List.mem_singleton.mp hpair
    rcases Builtin.collectionToString_gives hrun with ⟨_, _, text, -, -, rfl⟩
    exact .inr ⟨htext rfl, text, rfl⟩
  · exact .inl (settled_of_buildsCollection hbase hctx (Builtin.arrayToCollection_gives hrun))
  · obtain rfl := List.mem_singleton.mp hpair
    exact .inl (settled_of_buildsArray (harray hmem)
      (Builtin.collectionToArray_gives hrun))

/--
What is given for a target is given again when it is converted to the target once more; only an
array whose elements have the most dimensions there may be need not be assignable to the target,
and then it is converted to null.
-/
theorem convert_idempotent (hbase : s.registry.ExtendsBase)
    (hi : s.registry.RegularInheritance) (hs : s.OnlyBuiltin)
    (hfallback : s.config.noOpFallback = true) {made limit : Nat}
    (ht : target.IsMade s.registry made) (hsub : ¬s.registry.IsSubInterface target.erasure)
    {value : Option Value} (h : (s.convert limit value target).Gives (some result)) :
    (s.convert limit (some result) target).Gives (some result) ∨
      IsOversized target result ∧
        s.registry.isAssignable target.erasure (result.erasure s.registry) = false ∧
        (s.convert limit (some result) target).Gives none := by
  have ht := ht.consistent
  have hctx : (s.context limit).registry = s.registry := registry_contextAt ..
  cases value with
  | none => simp [convert, convertWith, convertIn, gives_pure_iff] at h
  | some v =>
    rcases (gives_bind_iff ..).mp h with ⟨chosen, hchosen, hrun⟩
    have hchosen' := (gives_ofWalk_iff ..).mp hchosen
    cases chosen with
    | none => simp [gives_pure_iff] at hrun
    | some c =>
      rcases chosen_of_chooseConverter hs hctx hchosen' with ⟨hc, pair, hpair, hmem⟩ | ⟨rfl, -⟩
      · rcases settled_of_builtin hbase hi hctx ht hc hpair hmem hrun with
          hsettled | ⟨hstring, text, rfl⟩
        · rcases convertIn_of_settled hbase hi hs hctx hfallback ht.registry hsettled with
            hkept | ⟨hnot, hnull⟩
          · exact .inl hkept
          · rcases isAssignable_of_builtin hbase hi hctx ht hsub hc hpair hmem hrun with
              hassignable | hoversized
            · exact absurd (hnot.symm.trans hassignable) Bool.false_ne_true
            · exact .inr ⟨hoversized, hnot, hnull⟩
        · exact .inl (convertIn_string hbase hs hctx hfallback hstring text)
      · -- a value that passes through is what it was, and so the second conversion is the first
        obtain rfl : v = result := by simpa [Converter.passThrough, gives_pure_iff] using hrun
        exact .inl h

end Idempotence

/-- Elements are converted to boxed numbers once, and then no more. -/
theorem convert_idempotent_numbers :
    ∃ s result, (bare bootstrap {}).addDefaults = .ok s ∧
      (s.convert 40 (some (.string "1, 2"))
        (.ofErasure bootstrap ⟨Bootstrap.wellKnown.long, 1⟩)).Gives (some result) ∧
      (s.convert 40 (some result) (.ofErasure bootstrap ⟨Bootstrap.wellKnown.long, 1⟩)).Gives
        (some result) := by
  have hcheck : ((bare bootstrap {}).addDefaults.toOption.any fun s =>
      s.config.noOpFallback && (s.convert 40 (some (.string "1, 2"))
        (.ofErasure bootstrap ⟨Bootstrap.wellKnown.long, 1⟩)).givesAny (·.isSome)) = true := by
    decide +kernel
  rcases exists_addDefaults bootstrap {} with ⟨s, hs⟩
  rcases onlyBuiltin_of_addDefaults hs with ⟨hregistry, honly⟩
  rw [hs, Except.toOption, Option.any_some] at hcheck
  rcases Bool.and_eq_true_iff.mp hcheck with ⟨hfallback, hgives⟩
  rcases exists_of_givesAny hgives with ⟨given, hgiven, hsome⟩
  rcases Option.isSome_iff_exists.mp hsome with ⟨result, rfl⟩
  have hplain : TypeDescriptor.IsPlainOf s.registry Bootstrap.wellKnown.long
      (.ofErasure bootstrap ⟨Bootstrap.wellKnown.long, 1⟩) := ⟨hregistry.symm, rfl, none, rfl⟩
  have hordinary := hplain.ordinary (by rw [hregistry]; decide +kernel)
    (by rw [hregistry]; decide +kernel)
  have hmade : TypeDescriptor.IsMade s.registry 40
      (.ofErasure bootstrap ⟨Bootstrap.wellKnown.long, 1⟩) := by
    rw [hregistry]
    exact .ofErasure ⟨Bootstrap.wellKnown.long, 1⟩
  have hsub := hordinary.noSubInterface _ .refl
  rcases convert_idempotent (by rw [hregistry]; exact extendsBase_bootstrap)
    (by rw [hregistry]; exact regularInheritance_of_check (by decide +kernel)) honly hfallback
    hmade (by rw [hregistry]; exact hsub) hgiven with
    hkept | ⟨⟨element, harray, helement, hdims, -⟩, -, -⟩
  · exact ⟨s, result, hs, hgiven, hkept⟩
  · exact absurd hdims (hordinary.dims _ element .refl helement harray)

/-! ## Too many dimensions -/

/--
`G<T extends Cloneable[]…[]>` with a method `m` that takes `items` of `T[]`, and
`H extends G<String[]…[]>`.
-/
def overlongCall : Registry :=
  let cloneables : Erasure := ⟨Bootstrap.wellKnown.cloneable, 254⟩
  let strings : Erasure := ⟨Bootstrap.wellKnown.string, 255⟩
  let items : ParamDef := ⟨"items", .genericArray (.typeVar ⟨18⟩), []⟩
  let generic : ClassDef :=
    { name := "G", typeParams := [⟨18⟩], methods := [⟨"m", [], [items], none, []⟩] }
  let bound : ClassDef :=
    { name := "H", superClass := some (.parameterized ⟨37⟩ [.plain strings] none) }
  ((bootstrap.addTypeParam ⟨"T", [.plain cloneables]⟩).1.push generic).push bound

/-- The parameter `items` seen from `H`: an array of arrays with the most dimensions. -/
def overlongParameter : TypeDescriptor :=
  ⟨overlongCall, some (.written (.genericArray (.typeVar ⟨18⟩)) (some overlongView)),
    ⟨Bootstrap.wellKnown.cloneable, 255⟩, []⟩

/-- Where arrays have too many dimensions, what is given need not be kept. -/
theorem overlong_not_idempotent :
    overlongCall.ExtendsBase ∧ overlongCall.RegularInheritance ∧
      overlongParameter.IsMade overlongCall 40 ∧
      ¬overlongCall.IsSubInterface overlongParameter.erasure ∧
      ∃ s result, (bare overlongCall {}).addDefaults = .ok s ∧ s.config.noOpFallback = true ∧
        (s.convert 40 (some (.collection s.registry.wellKnown.arrayList [])) overlongParameter).Gives
          (some result) ∧
        ¬(s.convert 40 (some result) overlongParameter).Gives (some result) := by
  have hcheck : ((bare overlongCall {}).addDefaults.toOption.any fun s =>
      s.config.noOpFallback &&
      (s.convert 40 (some (.collection s.registry.wellKnown.arrayList [])) overlongParameter).givesAny
        fun given => given.any fun result =>
          (s.convert 40 (some result) overlongParameter).givesAny (·.isNone)) = true := by
    decide +kernel
  have hmade : TypeDescriptor.ofMethodParameter 40 overlongCall
      { declaring := ⟨37⟩, method := "m", index := .param 0, containing := some ⟨38⟩ } =
    some (.ok overlongParameter) := rfl
  have hinterface : overlongCall.isInterface overlongParameter.erasure = false := rfl
  rcases exists_addDefaults overlongCall {} with ⟨s, hs⟩
  refine ⟨((extendsBase_bootstrap.addTypeParam _).push _).push _,
    regularInheritance_of_check (by decide +kernel), .ofMethodParameter hmade, ?_, ?_⟩
  · rintro ⟨hd, -⟩
    exact Bool.false_ne_true (hinterface.symm.trans hd)
  · rw [hs, Except.toOption, Option.any_some] at hcheck
    rcases Bool.and_eq_true_iff.mp hcheck with ⟨hfallback, hcheck⟩
    rcases exists_of_givesAny hcheck with ⟨given, hgiven, hcheck⟩
    rcases (Option.any_eq_true ..).mp hcheck with ⟨result, rfl, hcheck⟩
    rcases exists_of_givesAny hcheck with ⟨again, hagain, hnone⟩
    refine ⟨s, result, hs, hfallback, hgiven, fun hkept => ?_⟩
    rw [Gives, show (s.convert 40 (some result) overlongParameter).run = _ from hagain] at hkept
    obtain rfl : again = some result := by simpa using hkept
    simp at hnone

end ConversionService

end TypeConversion
