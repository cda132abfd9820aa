import TypeConversion.Proofs.Conversion.Endings
import TypeConversion.Proofs.Conversion.Integers
import TypeConversion.Proofs.Conversion.Shapes
import TypeConversion.Proofs.Node.Texts

/-!
# Conversions come to an end

A service that is asked whether it can convert to a type asks itself whether it can convert to the
elements of the type, and a service that converts to a type converts to its elements.  The elements
of a type without variables come to an end, so the answer to such a question always does.  A
conversion to such a type ends if the type and its elements have texts, which the messages of errors
are made of; they have if no bound of a variable leads to an array.  Where one does, a conversion
that fails need not end.

**Results**

* `total_getConverter_of_acc`, `ends_convertWith_of_acc`: by induction along the elements;
* `ends_convert_string`: conversions to strings end, by induction on the depth of the value;
* `display_total_of_contains`: the texts of a type and its elements;
* `conversions_end`: answers and conversions for types without variables;
* `convert_arrayBounded_cutOff`: a conversion that does not end.
-/

namespace TypeConversion

open Walk Attempt Registry

/-! ## Texts of types -/

namespace TypeDescriptor

variable {d : TypeDescriptor}

/-- A descriptor has a text if its node has one. -/
theorem display_total (hr : d.registry.Acyclic)
    (h : ∀ n, d.node = some n → ∃ text, Node.DisplayIs d.registry (some n) text) :
    Total fun limit => d.display limit := by
  have hnode : Total fun limit => Node.display d.registry limit d.node := by
    refine ⟨Node.display_steady d.registry d.node, ?_⟩
    cases hd : d.node with
    | none => exact ⟨_, Node.displayIs_none⟩
    | some n => exact h n hd
  refine (isDefinite_total hr).bind fun definite => ?_
  cases definite with
  | true => exact hnode.bind fun _ => .const _
  | false => exact .const _

/--
A type without variables and its elements, at every level, have texts unless a bound leads to an
array.
-/
theorem display_total_of_contains {r : Registry} (hbase : r.ExtendsBase) (hvars : r.KeepsVariables)
    (hr : r.Acyclic) (hnew : r.NoNewCollections) (harrays : r.NoArrayBounds)
    {target : TypeDescriptor} (htarget : target.registry = r) {n : Node}
    (hnode : target.node = some n) (hn : n.typeVars = []) (h : target.Contains d) :
    Total fun limit => d.display limit := by
  have hbelow : d.registry = r ∧ ∀ m, d.node = some m → ∃ k, Node.ComesBelow r k m := by
    induction h with
    | refl =>
      refine ⟨htarget, fun m hm => ?_⟩
      obtain rfl : n = m := Option.some.inj (hnode.symm.trans hm)
      exact ⟨_, Node.Small.comesBelow ⟨hn, Nat.lt_succ_self n.size⟩⟩
    | @tail b c _ helement ih =>
      refine ⟨helement.cases.1.trans ih.1, fun m hm => ?_⟩
      cases hb : b.node with
      | none => simp [helement.node_eq_none hb] at hm
      | some m' =>
        obtain ⟨k, hk⟩ := ih.2 m' hb
        obtain ⟨j, -, hj⟩ := helement.comesBelow hbase hvars hr hnew ih.1 hb hk hm
        exact ⟨j, hj⟩
  obtain ⟨rfl, hbelow⟩ := hbelow
  refine display_total hr fun m hm => ?_
  obtain ⟨k, hk⟩ := hbelow m hm
  exact hk.exists_displayIs hr harrays

end TypeDescriptor

namespace ConversionService

variable {s : ConversionService} (hs : s.OnlyBuiltin)

/-! ## Calls of the service -/

include hs

theorem total_call {source : Option TypeDescriptor} {target : TypeDescriptor}
    (h : ∃ answer, Finds (fun limit => s.canConvert limit source target) answer) :
    Total fun limit => (s.context limit).canConvert source target := by
  refine ⟨fun _ _ hle => (contextAt_extends hs hle hle).canConvert source target, ?_⟩
  obtain ⟨answer, limit, h⟩ := h
  -- the call is one deeper, and a larger limit extends the context
  have hextends := contextAt_extends hs (Nat.le_succ limit) (Nat.le_refl limit)
  exact ⟨answer, limit + 1,
    canConvertIn_extends hs hextends (registry_contextAt ..) source target answer h⟩

theorem ends_call {value : Option Value} {source : Option TypeDescriptor} {target : TypeDescriptor}
    (h : Ends fun limit => s.convertWith limit value source target) :
    Ends fun limit => (s.context limit).convert value source target := by
  refine ⟨fun _ _ hle => (contextAt_extends hs hle hle).convert value source target, ?_⟩
  obtain ⟨outcome, limit, h⟩ := h.finds
  have hextends := contextAt_extends hs (Nat.le_succ limit) (Nat.le_refl limit)
  exact ⟨outcome, limit + 1,
    convertIn_extends hs hextends (registry_contextAt ..) value source target outcome h⟩

/-! ## The chosen converter -/

omit hs in
theorem total_firstAccepting {source target : TypeDescriptor} {cs : List Converter}
    (h : ∀ c ∈ cs, Total fun limit => c.accepts (s.context limit) source target) :
    Total fun limit => Converters.firstAccepting (s.context limit) source target cs := by
  induction cs with
  | nil => exact .const none
  | cons c rest ih =>
    obtain ⟨hc, hrest⟩ := List.forall_mem_cons.mp h
    exact hc.bind fun _ => .ite (.const _) (ih hrest)

/-- A converter is chosen if the candidates can tell whether they take the types. -/
theorem total_getConverter {source target : TypeDescriptor}
    (h : ∀ c ∈ s.converters.candidates s.registry source.erasure target.erasure,
      Total fun limit => c.accepts (s.context limit) source target) :
    Total fun limit => s.getConverter limit source target := by
  have hfind : Total fun limit => s.converters.find (s.context limit) source target := by
    simp only [Converters.find, registry_context, hs.global, List.append_nil]
    exact total_firstAccepting h
  refine hfind.bind fun found => ?_
  cases found with
  | some c => exact .const _
  | none => exact .ite (.const _) (.const _)

omit hs in
/-- A conversion ends if a converter is chosen and what it does ends. -/
theorem ends_convertWith {v : Value} {source : Option TypeDescriptor} {target : TypeDescriptor}
    {described : TypeDescriptor}
    (hdescribed : described = source.getD (s.descriptor (v.erasure s.registry)))
    (hchosen : Total fun limit => s.getConverter limit described target)
    (hrun : ∀ c limit, s.getConverter limit described target = some (some c) →
      Ends fun limit => c.run (s.context limit) (some v) described target) :
    Ends fun limit => s.convertWith limit (some v) source target := by
  subst hdescribed
  refine (Ends.ofWalk hchosen).bind fun chosen limit hgives => ?_
  cases chosen with
  | none => exact ends_pure none
  | some c => exact hrun c limit ((gives_ofWalk_iff ..).mp hgives)

/-- A converter is chosen for a type if one is chosen for its elements. -/
theorem total_getConverter_of_elements {source target : TypeDescriptor}
    (hsource : source.registry.Acyclic) (htarget : target.registry.Acyclic)
    (helements : ∀ d element, d.registry.Acyclic → target.HasElement element →
      Total fun limit => s.getConverter limit d element) :
    Total fun limit => s.getConverter limit source target := by
  refine total_getConverter hs fun c hc => ?_
  refine total_accepts hsource htarget (fun d element hd helement => total_call hs ?_)
    (exists_pair_of_mem_candidates hs hc).1
  exact ((helements d element hd helement).bind fun found => .const found.isSome).finds

/-- A converter is chosen where elements come to an end. -/
theorem total_getConverter_of_acc {source target : TypeDescriptor}
    (hacc : Acc (fun element d => TypeDescriptor.HasElement d element) target)
    (hsource : source.registry.Acyclic) (htarget : target.registry.Acyclic) :
    Total fun limit => s.getConverter limit source target := by
  induction hacc generalizing source with
  | intro target _ ih =>
    refine total_getConverter_of_elements hs hsource htarget fun d element hd helement => ?_
    exact ih element helement hd (helement.cases.1 ▸ htarget)

/-! ## Conversions to strings -/

variable (hbase : s.registry.ExtendsBase)

omit hs in
include hbase in
theorem display_total_string :
    Total fun limit => (s.descriptor (Builtin.stringClass s.registry)).display limit := by
  have hbootstrap : ∃ d, bootstrap.class? Bootstrap.wellKnown.string = some d ∧
      d.typeParams = [] ∧ d.annotations = [] := ⟨_, rfl, rfl, rfl⟩
  obtain ⟨d, hd, hparams, hannotations⟩ := hbootstrap
  have hd : s.registry.class? s.registry.wellKnown.string = some d := by
    rw [hbase.wellKnown]
    exact hbase.classes _ d hd
  exact ⟨TypeDescriptor.display_steady _, _, 2,
    display_ofErasure (e := Builtin.stringClass s.registry) rfl hd hparams hannotations 0⟩

include hbase

/-- A conversion to strings has an outcome for every value. -/
theorem ends_convert_string (v : Value) : Ends fun limit =>
    s.convertWith limit (some v) none (s.descriptor (Builtin.stringClass s.registry)) := by
  have htext := display_total_string hbase
  induction hk : v.depth using Nat.strong_induction_on generalizing v with
  | _ k ih =>
  subst hk
  have hstrings : ∀ es, v.elements? = some es → ∀ e, some e ∈ es →
      Ends fun limit => (s.context limit).convert (some e) none
        (s.descriptor (Builtin.stringClass s.registry)) := fun es hes e he =>
    ends_call hs (ih e.depth (Value.depth_lt_of_elements? hes he) e rfl)
  have hchosen : Total fun limit => s.getConverter limit (s.descriptor (v.erasure s.registry))
      (s.descriptor (Builtin.stringClass s.registry)) := by
    refine total_getConverter hs fun c hc => ?_
    simp only [(isTextConverter_of_mem_candidates hbase hs hc).accepts]
    exact .const true
  refine ends_convertWith rfl hchosen fun c limit hc => ?_
  rcases accepted_of_chooseConverter hs (registry_context ..) hc with
    ⟨hbuiltin, -, pair, hpair, -, hto⟩ | ⟨rfl, -⟩
  · rcases textConverter_of_pair hbase hbuiltin hpair
      (hbase.mem_stringLineage_of_mem_classHierarchy hto) with rfl | ⟨rfl, -⟩ | ⟨rfl, -⟩
    · exact ends_pure _
    · exact ends_arrayToString htext hstrings
    · exact ends_collectionToString htext hstrings
  · exact ends_pure _

/-! ## Conversions along the elements -/

/-- A conversion ends where elements come to an end and have texts. -/
theorem ends_convertWith_of_acc (hr : s.registry.Acyclic) {target : TypeDescriptor}
    (hacc : Acc (fun element d => TypeDescriptor.HasElement d element) target)
    (htarget : target.registry.Acyclic)
    (htexts : ∀ d, target.Contains d → Total fun limit => d.display limit) (value : Option Value)
    {source : Option TypeDescriptor} (hsource : ∀ d ∈ source, d.registry.Acyclic) :
    Ends fun limit => s.convertWith limit value source target := by
  induction hacc generalizing value source with
  | intro target hbelow ih =>
  cases value with
  | none => exact ends_pure none
  | some v =>
    have hdescribed : (source.getD (s.descriptor (v.erasure s.registry))).registry.Acyclic := by
      cases source with
      | none => exact hr
      | some d => exact hsource d rfl
    have hcalls : ∀ element value, target.HasElement element →
        Ends fun limit => (s.context limit).convert value none element := by
      intro element value helement
      refine ends_call hs (ih element helement (helement.cases.1 ▸ htarget) ?_ value (by simp))
      exact fun d hd => htexts d (.head helement hd)
    refine ends_convertWith rfl
      (total_getConverter_of_acc hs (.intro target hbelow) hdescribed htarget) fun c limit hc => ?_
    rcases accepted_of_chooseConverter hs (registry_context ..) hc with ⟨hbuiltin, -⟩ | ⟨rfl, -⟩
    · exact ends_run (htexts target .refl) htarget hcalls
        (fun es _ e _ => ends_call hs (ends_convert_string hs hbase e)) hbuiltin
    · exact ends_pure _

omit hs hbase

/--
The question whether a service converts to a type without variables has an answer, if no class but
those of the bootstrap registry is a collection.  A conversion to such a type has an outcome if the
type and its elements, at every level, have texts; they have if no bound leads to an array.
-/
theorem conversions_end {s : ConversionService} (hbase : s.registry.ExtendsBase)
    (hvars : s.registry.KeepsVariables) (hr : s.registry.Acyclic)
    (hnew : s.registry.NoNewCollections) (hs : s.OnlyBuiltin) {target : TypeDescriptor}
    (htarget : target.registry = s.registry) {n : Node} (hnode : target.node = some n)
    (hn : n.typeVars = []) :
    (∀ source : Option TypeDescriptor, (∀ d ∈ source, d.registry.Acyclic) →
      ∃ answer, Finds (fun limit => s.canConvert limit source target) answer) ∧
    ((∀ d, target.Contains d → ∃ text, Finds (fun limit => d.display limit) text) →
      ∀ (value : Option Value) (source : Option TypeDescriptor),
        (∀ d ∈ source, d.registry.Acyclic) →
        ∃ outcome, Finds (fun limit => (s.convertWith limit value source target).run) outcome) ∧
    (s.registry.NoArrayBounds →
      ∀ d, target.Contains d → ∃ text, Finds (fun limit => d.display limit) text) := by
  have hacc := TypeDescriptor.acc_hasElement hbase hvars hr hnew htarget hnode hn
  have hregistry : target.registry.Acyclic := htarget ▸ hr
  refine ⟨fun source hsource => ?_, fun htexts value source hsource => ?_, fun harrays d hd => ?_⟩
  · cases source with
    | none => exact ⟨true, finds_const_iff.mpr rfl⟩
    | some source =>
      have hchosen := total_getConverter_of_acc hs hacc (hsource source rfl) hregistry
      exact (hchosen.bind fun found => .const found.isSome).finds
  · have htexts : ∀ d, target.Contains d → Total fun limit => d.display limit := fun d hd =>
      ⟨d.display_steady, htexts d hd⟩
    exact (ends_convertWith_of_acc hs hbase hr hacc hregistry htexts value hsource).finds
  · exact (TypeDescriptor.display_total_of_contains hbase hvars hr hnew harrays htarget hnode hn
      hd).finds

/-- The type `List<? extends Set<Integer>[]>`. -/
def listOfSetArrays : TypeExpr :=
  .parameterized Bootstrap.wellKnown.list [.wildcard [.genericArray
    (.parameterized Bootstrap.wellKnown.set [.ofClass Bootstrap.wellKnown.integer] none)] []] none

/-- Questions and conversions for lists of arrays of sets end. -/
theorem conversions_end_listOfSetArrays :
    ∃ s target, (bare bootstrap {}).addDefaults = .ok s ∧
      target.node = some (.ofExpr listOfSetArrays) ∧
      (∀ source : Option TypeDescriptor, (∀ d ∈ source, d.registry.Acyclic) →
        ∃ answer, Finds (fun limit => s.canConvert limit source target) answer) ∧
      ∀ (value : Option Value) (source : Option TypeDescriptor),
        (∀ d ∈ source, d.registry.Acyclic) →
        ∃ outcome, Finds (fun limit => (s.convertWith limit value source target).run) outcome := by
  obtain ⟨s, hs⟩ := exists_addDefaults bootstrap {}
  obtain ⟨hregistry, honly⟩ := onlyBuiltin_of_addDefaults hs
  let target : TypeDescriptor :=
    ⟨bootstrap, some (.ofExpr listOfSetArrays), .ofClass Bootstrap.wellKnown.list, []⟩
  have hacyclic : bootstrap.Acyclic := acyclic_of_ordered (by decide +kernel) (by decide +kernel)
  have hnew : bootstrap.NoNewCollections :=
    noNewCollections_of_check extendsBase_bootstrap (by decide +kernel)
  have harrays : bootstrap.NoArrayBounds :=
    noArrayBounds_of_boundsAreClasses (by decide +kernel) (by decide +kernel)
  have hvars : s.registry.KeepsVariables := by
    rw [hregistry]
    exact fun _ _ h => h
  obtain ⟨hanswers, houtcomes, htexts⟩ := conversions_end (hregistry ▸ extendsBase_bootstrap) hvars
    (hregistry ▸ hacyclic) (hregistry ▸ hnew) honly
    (show target.registry = s.registry from hregistry.symm) rfl (by decide)
  exact ⟨s, target, hs, rfl, hanswers, houtcomes (htexts (hregistry ▸ harrays))⟩

/-! ## A conversion that does not end -/

/-- The type `Enum<G>` of a class `G` whose parameter is bounded by arrays of `G`. -/
def enumOfArrayBounded : TypeDescriptor where
  registry := Node.arrayBounded
  node := some (.ofExpr (.parameterized Bootstrap.wellKnown.enumClass [.ofClass ⟨37⟩] none))
  erasure := .ofClass Bootstrap.wellKnown.enumClass
  annotations := []

theorem display_enumOfArrayBounded (limit : Nat) : enumOfArrayBounded.display limit = none := by
  rw [Option.eq_none_iff_forall_ne_some]
  intro text h
  let node : Node := .ofExpr (.parameterized Bootstrap.wellKnown.enumClass [.ofClass ⟨37⟩] none)
  have hnode : ∃ text, Node.display Node.arrayBounded limit (some node) = some text := by
    obtain ⟨definite, hdefinite, h⟩ := Option.bind_eq_some_iff.mp h
    obtain ⟨found, hfound, hdefinite⟩ := Option.bind_eq_some_iff.mp hdefinite
    have hresolves : Node.ResolvesTo Node.arrayBounded node
        (some (.ofClass Bootstrap.wellKnown.enumClass)) := Node.resolvesTo_of_head? rfl
    obtain rfl := hresolves.eq_of_some (Node.resolve_steady _ node) hfound
    obtain rfl : true = definite := Option.some.inj hdefinite
    obtain ⟨text, htext, -⟩ := Option.bind_eq_some_iff.mp h
    exact ⟨text, htext⟩
  obtain ⟨text, htext⟩ := hnode
  -- the text of the enumeration needs that of its argument
  obtain ⟨smaller, -, text, htext⟩ := Node.exists_lt_of_display_class
    (.intro 2 rfl) (Node.resolvesTo_of_head? rfl) rfl
    ((Node.genericsAre_parameterized_iff ..).mpr rfl) htext List.mem_cons_self
  have hfree : Node.VariableIs Node.arrayBounded none ⟨18⟩ none :=
    (Node.variableIs_none_iff ..).mpr rfl
  have hcut := Node.display_arrayBounded smaller hfree
  exact absurd (hcut.symm.trans htext) (Option.some_ne_none text).symm

/-- The enumeration is a type without variables, but the text of it does not end. -/
theorem convert_arrayBounded_cutOff :
    (Node.arrayBounded.ExtendsBase ∧ Node.arrayBounded.KeepsVariables ∧
      Node.arrayBounded.Acyclic ∧ Node.arrayBounded.NoNewCollections) ∧
    (enumOfArrayBounded.registry = Node.arrayBounded ∧
      ∀ n ∈ enumOfArrayBounded.node, n.typeVars = []) ∧
    ∃ s, (bare Node.arrayBounded {}).addDefaults = .ok s ∧ s.OnlyBuiltin ∧
      ∀ limit, (s.convert limit (some (.string "x")) enumOfArrayBounded).run = none := by
  have hbase : Node.arrayBounded.ExtendsBase := (extendsBase_bootstrap.addTypeParam _).push _
  have hvars : Node.arrayBounded.KeepsVariables :=
    (KeepsVariables.addTypeParam (fun _ _ h => h) _).push _
  have hnew : Node.arrayBounded.NoNewCollections :=
    noNewCollections_of_check hbase (by decide +kernel)
  refine ⟨⟨hbase, hvars, Node.arrayBounded_acyclic, hnew⟩, ⟨rfl, ?_⟩, ?_⟩
  · rintro n ⟨⟩
    decide
  obtain ⟨s, hs⟩ := exists_addDefaults Node.arrayBounded {}
  obtain ⟨hregistry, honly⟩ := onlyBuiltin_of_addDefaults hs
  refine ⟨s, hs, honly, fun limit => ?_⟩
  have hfirst : MeetsFirst Node.arrayBounded (Builtin.stringClass Node.arrayBounded)
      (.ofClass Bootstrap.wellKnown.enumClass) (Builtin.stringToEnum Node.arrayBounded) := by
    have hhierarchy := hbase.classHierarchy_eq
      (ExtendsBase.isBase_of_isSome (c := Bootstrap.wellKnown.enumClass) rfl)
    refine meetsFirst_of_target hbase (e := .ofClass Bootstrap.wellKnown.enumClass)
      (by simp [Builtin.defaults]) List.mem_cons_self ?_ ?_
    all_goals
      rw [hhierarchy]
      decide
  have hchosen : s.chooseConverter (s.context limit)
      (s.descriptor (Builtin.stringClass s.registry)) enumOfArrayBounded =
        some (some (Builtin.stringToEnum Node.arrayBounded)) :=
    chooseConverter_of_meetsFirst hs ((registry_context s limit).trans hregistry)
      (by rwa [descriptor, hregistry]) rfl
  have hmismatch : (Builtin.stringToEnum Node.arrayBounded).run (s.context limit)
      (some (.string "x")) (s.descriptor (Builtin.stringClass s.registry)) enumOfArrayBounded =
      Converter.mismatch (s.context limit) "StringToEnum" (.string "x") enumOfArrayBounded := rfl
  have hrun : (Converter.mismatch (s.context limit) "StringToEnum" (.string "x")
      enumOfArrayBounded : Attempt (Option Value)).run = none := by
    rw [Converter.mismatch, limit_context, display_enumOfArrayBounded]
    rfl
  rw [convert, convertWith, convertIn]
  change (Attempt.ofWalk (s.chooseConverter (s.context limit)
    (s.descriptor (Builtin.stringClass s.registry)) enumOfArrayBounded) >>= _).run = none
  rw [hchosen]
  exact (congrArg ExceptT.run hmismatch).trans hrun

end ConversionService

end TypeConversion
