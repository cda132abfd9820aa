import TypeConversion.Registry.Codec
import TypeConversion.Proofs.Json.Record
import TypeConversion.Proofs.Registry.Reindex

/-!
# Registries are read as they were written

Every part of a registry is read as what it was written as, from the numbers of classes up to the
registry itself, exactly where the reader goes as deep as the text is nested.  Only the index is not
written: it is built anew, which changes no name where the index was exact.

Type expressions contain each other, in lists and in optional owners, so they are treated in one
induction.  In all other records the fields are simpler than the record.

**Results**

* `TypeExpr.faithful`, `ClassDef.faithful` and others: the parts of a registry;
* `Registry.ofText?_toText_iff`: what the text of a registry is read as, if it is read;
* `Registry.exists_ofText?_toText`: the text of an exact registry of limited nesting is read as a
  registry with the same classes under the same names, which has the same text.
-/

namespace TypeConversion

open Json (Faithful Record asString? asNat? asList? asRecord? choice? enter)

/-! ## Numbers -/

theorem asNat?_nat {bound n m : Nat} :
    asNat? bound (.nat n) = some m ↔ n < bound ∧ n = m := by
  simp [asNat?, Json.nat]

theorem ClassId.ofJson?_toJson_iff {c c' : ClassId} : ofJson? c.toJson = some c' ↔ c = c' := by
  have hc : c.index.toNat < UInt32.size := c.index.toNat_lt
  have hback : c.index.toNat.toUInt32 = c.index := by simp
  simp only [ofJson?, toJson, Option.map_eq_some_iff, asNat?_nat]
  constructor
  · rintro ⟨_, ⟨-, rfl⟩, rfl⟩
    rw [hback]
  · rintro rfl
    exact ⟨_, ⟨hc, rfl⟩, by rw [hback]⟩

theorem TypeVarId.ofJson?_toJson_iff {v v' : TypeVarId} : ofJson? v.toJson = some v' ↔ v = v' := by
  have hv : v.index.toNat < UInt32.size := v.index.toNat_lt
  have hback : v.index.toNat.toUInt32 = v.index := by simp
  simp only [ofJson?, toJson, Option.map_eq_some_iff, asNat?_nat]
  constructor
  · rintro ⟨_, ⟨-, rfl⟩, rfl⟩
    rw [hback]
  · rintro rfl
    exact ⟨_, ⟨hv, rfl⟩, by rw [hback]⟩

@[simp] theorem ClassId.nesting_toJson (c : ClassId) : c.toJson.nesting = 0 := rfl

@[simp] theorem TypeVarId.nesting_toJson (v : TypeVarId) : v.toJson.nesting = 0 := rfl

theorem ClassId.faithful (c : ClassId) : Faithful (fun _ => ofJson?) toJson c where
  plain := .integer _
  read_iff depth c' := by simp [ofJson?_toJson_iff]

theorem TypeVarId.faithful (v : TypeVarId) : Faithful (fun _ => ofJson?) toJson v where
  plain := .integer _
  read_iff depth v' := by simp [ofJson?_toJson_iff]

theorem Erasure.faithful (e : Erasure) : Faithful ofJson? toJson e := by
  have hdims : e.dims.toNat < 256 := e.dims.toNat_lt
  have hback : e.dims.toNat.toUInt8 = e.dims := by simp
  refine .record rfl rfl (by decide) ?_ fun depth e' => ?_
  · simp only [Json.plain_object_cons, Json.plain_object_nil, and_true]
    exact ⟨.integer _, .integer _⟩
  · simp only [Record.required_cons, String.reduceEq, ↓reduceIte, Option.bind_eq_bind,
      Option.bind_eq_some_iff, Option.pure_def, Option.some.injEq, ClassId.ofJson?_toJson_iff,
      asNat?_nat]
    constructor
    · rintro ⟨_, rfl, _, ⟨-, rfl⟩, rfl⟩
      refine ⟨?_, by rw [hback]⟩
      simp [ClassId.toJson, Json.nat]
    · rintro ⟨-, rfl⟩
      exact ⟨_, rfl, _, ⟨hdims, rfl⟩, by rw [hback]⟩

/-! ## Annotations -/

theorem Annotation.elementOfJson?_faithful (element : String × String) :
    Faithful elementOfJson? (fun (key, value) => .array [.string key, .string value]) element where
  plain := by
    refine .array fun e he => ?_
    simp only [List.mem_cons, List.not_mem_nil, or_false] at he
    rcases he with rfl | rfl
    · exact .string _
    · exact .string _
  read_iff depth y := by
    rw [elementOfJson?, Json.nesting_array_le_iff]
    cases depth with
    | zero => simp [enter]
    | succ depth => simp [enter, asString?]

theorem Annotation.faithful (a : Annotation) : Faithful ofJson? toJson a := by
  have helements := Faithful.list fun e (_ : e ∈ a.elements) => elementOfJson?_faithful e
  refine .record rfl rfl (by decide) ?_ fun depth b => ?_
  · simp only [Json.plain_object_cons, Json.plain_object_nil, and_true]
    exact ⟨.string _, helements.plain⟩
  · simp [asString?, helements.read_iff, Option.bind_eq_some_iff]

/-! ## Type expressions -/

namespace TypeExpr

theorem array_toJsonList (ts : List TypeExpr) : .array (toJsonList ts) = Json.list toJson ts := by
  rw [Json.list]
  congr 1
  induction ts with
  | nil => rfl
  | cons t ts ih => rw [toJsonList, ih, List.map_cons]

theorem toJsonOption_eq (t : Option TypeExpr) : toJsonOption t = .optional toJson t := by
  cases t <;> rfl

theorem toJson_ne_null (t : TypeExpr) : t.toJson ≠ .null := by
  cases t <;> simp [toJson]

theorem listOfJson?_eq : listOfJson? = asList? ofJson? := by
  funext depth value
  cases value <;> cases depth <;> rfl

theorem parameterizedOfJson?_eq :
    parameterizedOfJson? = asRecord? ["raw", "args", "owner"] fun depth r => do
      let raw ← r.required "raw" ClassId.ofJson?
      let args ← r.required "args" (asList? ofJson? depth)
      let owner ← r.nullable "owner" (ofJson? depth)
      return parameterized raw args owner := by
  funext depth value
  cases depth with
  | zero =>
    rw [parameterizedOfJson?, asRecord?, enter]
    cases Json.record? ["raw", "args", "owner"] value <;> rfl
  | succ depth => rw [parameterizedOfJson?, listOfJson?_eq, asRecord?, enter]; rfl

theorem wildcardOfJson?_eq :
    wildcardOfJson? = asRecord? ["upper_bounds", "lower_bounds"] fun depth r => do
      let upper ← r.required "upper_bounds" (asList? ofJson? depth)
      let lower ← r.required "lower_bounds" (asList? ofJson? depth)
      return wildcard upper lower := by
  funext depth value
  cases depth with
  | zero =>
    rw [wildcardOfJson?, asRecord?, enter]
    cases Json.record? ["upper_bounds", "lower_bounds"] value <;> rfl
  | succ depth => rw [wildcardOfJson?, listOfJson?_eq, asRecord?, enter]; rfl

section Alternatives

variable (depth : Nat) (content : Json)

theorem ofJson?_class :
    ofJson? (depth + 1) (.object [("Class", content)]) =
      (Erasure.ofJson? depth content).map plain := rfl

theorem ofJson?_parameterized :
    ofJson? (depth + 1) (.object [("Parameterized", content)]) =
      parameterizedOfJson? depth content := rfl

theorem ofJson?_genericArray :
    ofJson? (depth + 1) (.object [("GenericArray", content)]) =
      (ofJson? depth content).map genericArray := rfl

theorem ofJson?_wildcard :
    ofJson? (depth + 1) (.object [("Wildcard", content)]) = wildcardOfJson? depth content := rfl

theorem ofJson?_variable :
    ofJson? (depth + 1) (.object [("Variable", content)]) =
      (TypeVarId.ofJson? content).map typeVar := rfl

end Alternatives

/-- An alternative is faithful if it is read from what stands behind its tag. -/
theorem faithful_of_tagged {t : TypeExpr} {tag : String} {content : Json}
    {read : Nat → Json → Option TypeExpr} (hwrite : t.toJson = .object [(tag, content)])
    (hstep : ∀ depth content, ofJson? (depth + 1) (.object [(tag, content)]) = read depth content)
    (hplain : content.Plain)
    (hread : ∀ depth u, read depth content = some u ↔ content.nesting ≤ depth ∧ t = u) :
    Faithful ofJson? toJson t where
  plain := by
    rw [hwrite]
    simpa using hplain
  read_iff depth u := by
    rw [hwrite, Json.nesting_object_le_iff]
    cases depth with
    | zero => simp [ofJson?, enter]
    | succ depth => simp [hstep, hread, enter]

mutual

/-- Every type expression is read as it was written. -/
theorem faithful : ∀ t : TypeExpr, Faithful ofJson? toJson t
  | plain e => by
    refine faithful_of_tagged (by rw [toJson]) ofJson?_class e.faithful.plain fun depth u => ?_
    simp [e.faithful.read_iff]
  | parameterized raw args owner => by
    have hargs := Faithful.list (faithful_mem args)
    have howner := Faithful.optional (faithful_option owner) fun t _ => t.toJson_ne_null
    refine faithful_of_tagged (by rw [toJson]) ofJson?_parameterized ?_ fun depth u => ?_
    · simpa [array_toJsonList, toJsonOption_eq] using
        ⟨raw.faithful.plain, hargs.plain, howner.plain⟩
    · rw [parameterizedOfJson?_eq, array_toJsonList, toJsonOption_eq]
      refine Json.asRecord?_object_iff ?_ ?_ (fun depth => ?_) depth
      · rfl
      · decide
      · simp [Option.bind_eq_some_iff, ClassId.ofJson?_toJson_iff, hargs.read_iff, howner.read_iff,
          and_assoc]
  | genericArray component => by
    have hcomponent := faithful component
    refine faithful_of_tagged (by rw [toJson]) ofJson?_genericArray hcomponent.plain
      fun depth u => ?_
    simp [hcomponent.read_iff]
  | wildcard upper lower => by
    have hupper := Faithful.list (faithful_mem upper)
    have hlower := Faithful.list (faithful_mem lower)
    refine faithful_of_tagged (by rw [toJson]) ofJson?_wildcard ?_ fun depth u => ?_
    · simpa [array_toJsonList] using ⟨hupper.plain, hlower.plain⟩
    · rw [wildcardOfJson?_eq, array_toJsonList, array_toJsonList]
      refine Json.asRecord?_object_iff ?_ ?_ (fun depth => ?_) depth
      · rfl
      · decide
      · simp [Option.bind_eq_some_iff, hupper.read_iff, hlower.read_iff, and_assoc]
  | typeVar v => by
    refine faithful_of_tagged (by rw [toJson]) ofJson?_variable v.faithful.plain fun depth u => ?_
    simp [TypeVarId.ofJson?_toJson_iff]

theorem faithful_mem : ∀ ts : List TypeExpr, ∀ t ∈ ts, Faithful ofJson? toJson t
  | [] => by simp
  | t :: ts => List.forall_mem_cons.mpr ⟨faithful t, faithful_mem ts⟩

theorem faithful_option : ∀ o : Option TypeExpr, ∀ t ∈ o, Faithful ofJson? toJson t
  | none => by simp
  | some t => by
    intro u hu
    obtain rfl : t = u := by simpa using hu
    exact faithful t

end

end TypeExpr

/-! ## Declarations -/

theorem TypeExpr.list_faithful (ts : List TypeExpr) :
    Faithful (asList? ofJson?) (.list toJson) ts :=
  .list fun t _ => t.faithful

theorem TypeExpr.optional_faithful (t : Option TypeExpr) :
    Faithful (fun depth => Json.orNull (ofJson? depth)) (.optional toJson) t :=
  .optional (fun t _ => t.faithful) fun t _ => t.toJson_ne_null

theorem Annotation.list_faithful (as : List Annotation) :
    Faithful (asList? ofJson?) (.list toJson) as :=
  .list fun a _ => a.faithful

theorem TypeVarId.list_faithful (vs : List TypeVarId) :
    Faithful varsOfJson? (.list toJson) vs :=
  .list fun v _ => v.faithful

theorem TypeParamDef.faithful (d : TypeParamDef) : Faithful ofJson? toJson d := by
  have hbounds := TypeExpr.list_faithful d.upperBounds
  refine .record rfl rfl (by decide) ?_ fun depth y => ?_
  · simpa using ⟨.string _, hbounds.plain⟩
  · simp [asString?, hbounds.read_iff, Option.bind_eq_some_iff]

theorem FieldDef.faithful (d : FieldDef) : Faithful ofJson? toJson d := by
  have htype := d.type.faithful
  have hannotations := Annotation.list_faithful d.annotations
  refine .record rfl rfl (by decide) ?_ fun depth y => ?_
  · simpa using ⟨.string _, htype.plain, hannotations.plain⟩
  · simp [asString?, htype.read_iff, annotationsOf?, hannotations.read_iff,
      Option.bind_eq_some_iff, and_assoc]

theorem ParamDef.faithful (d : ParamDef) : Faithful ofJson? toJson d := by
  have htype := d.type.faithful
  have hannotations := Annotation.list_faithful d.annotations
  refine .record rfl rfl (by decide) ?_ fun depth y => ?_
  · simpa using ⟨.string _, htype.plain, hannotations.plain⟩
  · simp [asString?, htype.read_iff, annotationsOf?, hannotations.read_iff,
      Option.bind_eq_some_iff, and_assoc]

theorem MethodDef.faithful (d : MethodDef) : Faithful ofJson? toJson d := by
  have htypeParams := TypeVarId.list_faithful d.typeParams
  have hparams : Faithful (asList? ParamDef.ofJson?) (.list ParamDef.toJson) d.params :=
    .list fun p _ => p.faithful
  have hreturn := TypeExpr.optional_faithful d.returnType
  have hannotations := Annotation.list_faithful d.annotations
  refine .record rfl rfl (by decide) ?_ fun depth y => ?_
  · simpa using
      ⟨.string _, htypeParams.plain, hparams.plain, hreturn.plain, hannotations.plain⟩
  · simp [asString?, htypeParams.read_iff, hparams.read_iff, hreturn.read_iff, annotationsOf?,
      hannotations.read_iff, Option.bind_eq_some_iff, and_assoc]

theorem ClassKind.ofTag?_tag (kind : ClassKind) : ofTag? kind.tag = some kind := by
  cases kind <;> rfl

theorem ClassDef.faithful (d : ClassDef) : Faithful ofJson? toJson d := by
  have htypeParams := TypeVarId.list_faithful d.typeParams
  have hsuper := TypeExpr.optional_faithful d.superClass
  have hinterfaces := TypeExpr.list_faithful d.interfaces
  have hfields : Faithful (asList? FieldDef.ofJson?) (.list FieldDef.toJson) d.fields :=
    .list fun f _ => f.faithful
  have hmethods : Faithful (asList? MethodDef.ofJson?) (.list MethodDef.toJson) d.methods :=
    .list fun m _ => m.faithful
  have hannotations := Annotation.list_faithful d.annotations
  have hconstants : Faithful (asList? fun _ => asString?) (.list .string) d.enumConstants :=
    .list fun c _ => Json.faithful_string c
  refine .record rfl rfl (by decide) ?_ fun depth y => ?_
  · simpa using
      ⟨.string _, .string _, htypeParams.plain, hsuper.plain, hinterfaces.plain, hfields.plain,
        hmethods.plain, hannotations.plain, hconstants.plain⟩
  · simp [asString?, ClassKind.ofJson?, ClassKind.ofTag?_tag, htypeParams.read_iff,
      hsuper.read_iff, hinterfaces.read_iff, hfields.read_iff, hmethods.read_iff, annotationsOf?,
      hannotations.read_iff, hconstants.read_iff, Option.bind_eq_some_iff, and_assoc]

/-! ## Registries -/

theorem WellKnown.faithful (wk : WellKnown) : Faithful ofJson? toJson wk := by
  have hlength : names.length = (wk.toList.map ClassId.toJson).length := rfl
  have hnodup : names.Nodup := by decide
  have hids : (wk.toList.map ClassId.toJson).mapM ClassId.ofJson? = some wk.toList :=
    (Json.mapM_eq_some_iff (fun _ => True) _ _ fun c _ c' => by
      rw [ClassId.ofJson?_toJson_iff, true_and]).mpr ⟨fun _ _ => trivial, rfl⟩
  have hflat (depth : Nat) :
      Json.nestingMembers (names.zip (wk.toList.map ClassId.toJson)) ≤ depth := by
    refine Json.nestingMembers_le_iff.mpr fun m hm => ?_
    rcases List.mem_map.mp (List.of_mem_zip hm).2 with ⟨c, -, hc⟩
    rw [← hc, ClassId.nesting_toJson]
    exact Nat.zero_le depth
  refine .record rfl (List.map_fst_zip (Nat.le_of_eq hlength)) hnodup ?_ fun depth wk' => ?_
  · refine .object fun m hm => ?_
    rcases List.mem_map.mp (List.of_mem_zip hm).2 with ⟨c, -, hc⟩
    exact hc ▸ c.faithful.plain
  · rw [Record.mapM_required_zip _ _ hnodup hlength, hids, Option.bind_eq_bind, Option.bind_some,
      wellKnownOfList?_toList, Option.some.injEq]
    exact (and_iff_right (hflat depth)).symm

namespace Registry

theorem list_classes_faithful (r : Registry) :
    Faithful (asList? ClassDef.ofJson?) (.list ClassDef.toJson) r.classes.toList :=
  .list fun d _ => d.faithful

theorem list_typeParams_faithful (r : Registry) :
    Faithful (asList? TypeParamDef.ofJson?) (.list TypeParamDef.toJson) r.typeParams.toList :=
  .list fun d _ => d.faithful

theorem plain_toJson (r : Registry) : r.toJson.Plain := by
  simpa [toJson] using
    ⟨r.list_classes_faithful.plain, r.list_typeParams_faithful.plain, r.wellKnown.faithful.plain⟩

/-- A registry is read as it was written, with its index built anew. -/
theorem ofJson?_toJson_iff {r r' : Registry} {depth : Nat} :
    ofJson? depth r.toJson = some r' ↔ r.toJson.nesting ≤ depth ∧ r.reindex = r' := by
  have hindex (index : NameIndex) : reindex { r with index := index } = r.reindex := rfl
  rw [ofJson?, toJson]
  refine Json.asRecord?_object_iff ?_ ?_ (fun depth => ?_) depth
  · rfl
  · decide
  · simp [r.list_classes_faithful.read_iff, r.list_typeParams_faithful.read_iff,
      r.wellKnown.faithful.read_iff, hindex, Option.bind_eq_some_iff, and_assoc]

theorem ofText?_toText_iff {r r' : Registry} :
    ofText? r.toText = some r' ↔ r.toJson.nesting ≤ registryDepth ∧ r.reindex = r' := by
  rw [ofText?, toText, r.plain_toJson.parse_text, Option.bind_some, ofJson?_toJson_iff]

/--
The text of a registry with an exact index is read, if it is nested less than 128 deep, as a
registry with the same classes, type variables and well-known classes, in which every name means
the same; so it has the same text.
-/
theorem exists_ofText?_toText (r : Registry) (hdepth : r.toJson.nesting < 128)
    (hexact : r.IsExact) :
    ∃ r', ofText? r.toText = some r' ∧ r'.classes = r.classes ∧ r'.typeParams = r.typeParams ∧
      r'.wellKnown = r.wellKnown ∧ (∀ name, r'.lookup? name = r.lookup? name) ∧
      r'.toText = r.toText :=
  ⟨r.reindex, ofText?_toText_iff.mpr ⟨Nat.le_of_lt_succ hdepth, rfl⟩, rfl, rfl, rfl,
    lookup?_reindex_of_exact hexact, rfl⟩

/-- A registry whose names need every kind of escape, with type expressions of every kind. -/
def awkward : Registry :=
  reindex
    { classes :=
        #[{ name := "a\"b\\c/\n\t\x00\x1f" },
          { name := "λ😀.\x08\x0c\r"
            kind := .interface
            typeParams := [⟨0⟩, ⟨4294967295⟩]
            superClass := some (.parameterized ⟨0⟩ [.typeVar ⟨0⟩] (some (.plain ⟨⟨1⟩, 255⟩)))
            interfaces := [.parameterized ⟨7⟩ [] none]
            fields := [⟨"\\u0022", .genericArray (.typeVar ⟨1⟩), [⟨"\"", [("\\", "\x7f")]⟩]⟩]
            methods := [⟨"", [⟨3⟩], [⟨"null", .wildcard [.ofClass ⟨1⟩] [], []⟩], none, []⟩]
            enumConstants := ["", "\"\""] }]
      typeParams := #[⟨"T\\", [.wildcard [] [.typeVar ⟨2⟩]]⟩]
      index := .empty
      wellKnown := { object := ⟨1⟩, primChar := ⟨12⟩ } }

theorem exists_ofText?_toText_awkward :
    awkward.toJson.nesting < 128 ∧ awkward.IsExact ∧
      ∃ r', ofText? awkward.toText = some r' ∧ r'.classes = awkward.classes ∧
        r'.typeParams = awkward.typeParams ∧ r'.wellKnown = awkward.wellKnown ∧
        (∀ name, r'.lookup? name = awkward.lookup? name) ∧ r'.toText = awkward.toText := by
  have hdepth : awkward.toJson.nesting < 128 := by decide
  have hexact : awkward.IsExact := isExact_reindex (by decide)
  exact ⟨hdepth, hexact, exists_ofText?_toText awkward hdepth hexact⟩

end Registry

end TypeConversion
