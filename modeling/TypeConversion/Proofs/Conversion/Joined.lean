import TypeConversion.Proofs.Conversion.Scalars
import TypeConversion.Proofs.Conversion.Wholes
import TypeConversion.Proofs.Dispatch.Arrays

/-!
# What is joined is split again

An array or a list of values of one kind is converted to the texts of the values, with delimiters
between them.  That text is split into the same texts, and from each of them its value is read back.
All of this takes four converters and, for every value, two more; which these are is decided by what
is met first.

**Results**

* `convertElements_gives`: values are read back from their texts;
* `convertIn_text_gives`, `convertIn_array_gives`, `convertIn_list_gives`: the whole of them;
* `convert_splits_joined`: so what is joined is split into what it was.
-/

namespace TypeConversion

open Attempt Registry

namespace ConversionService

variable {s : ConversionService} {kind : ElementKind} {xs : List Value}

/-- The joined texts of values are split into the texts. -/
theorem splitElements_contextAt (hdelimiter : s.config.elementDelimiter ≠ "")
    (hxs : ∀ x ∈ xs, kind.Holds s.registry x)
    (hapart : ∀ x ∈ xs, ∀ c ∈ x.text.toList, c ∉ s.config.elementDelimiter.toList)
    (limit depth : Nat) :
    Builtin.splitElements (s.contextAt limit depth)
      (joinTexts s.config.elementDelimiter (xs.map Value.text)) = xs.map Value.text := by
  rw [← config_contextAt s limit depth] at hdelimiter hapart ⊢
  refine Builtin.splitElements_joinTexts hdelimiter ?_ ?_
  · intro p hp
    rcases List.mem_map.mp hp with ⟨x, hx, rfl⟩
    exact (hxs x hx).isUnpadded
  · intro p hp
    rcases List.mem_map.mp hp with ⟨x, hx, rfl⟩
    exact hapart x hx

section

variable (hs : (bare s.registry s.config).addDefaults = .ok s) (hbase : s.registry.ExtendsBase)
  (hkind : kind.IsPlain s.registry)

include hs hbase hkind

/-! ## Elements -/

/-- Values of a kind are read back by the converter for the kind. -/
theorem chooseConverter_element {element : TypeDescriptor}
    (helement : s.registry.boxed element.erasure = .ofClass (kind.class_ s.registry))
    (limit depth : Nat) :
    s.chooseConverter (s.contextAt limit depth) (s.descriptor (Builtin.stringClass s.registry))
      element = some (some (kind.converter s.registry)) :=
  chooseConverter_of_meetsFirst hs (registry_contextAt ..) (kind.meetsFirst hbase hkind helement)
    (kind.converter_accepts ..)

section

variable (hxs : ∀ x ∈ xs, kind.Holds s.registry x)

include hxs

theorem convertElements_gives {element : TypeDescriptor} (hregistry : element.registry = s.registry)
    (helement : s.registry.boxed element.erasure = .ofClass (kind.class_ s.registry))
    (limit depth : Nat) :
    (Builtin.convertElements (s.contextAt limit (depth + 1)) element
      ((xs.map Value.text).map fun part => some (.string part))).Gives (xs.map some) := by
  rw [Builtin.convertElements, gives_mapM_iff, List.forall₂_map_left_iff, List.forall₂_map_left_iff,
    List.forall₂_map_right_iff, List.forall₂_same]
  intro x hx
  exact convertIn_gives_of_chosen (chooseConverter_element hs hbase hkind helement limit depth)
    ((hxs x hx).converter_gives hbase hkind hregistry helement)

/-! ## Arrays and lists -/

/-- Arrays and lists of values are converted to the joined texts. -/
theorem convertIn_text_gives {whole : Value} (hwhole : IsWhole s.registry xs whole)
    (limit depth : Nat) :
    (s.convertIn (s.contextAt limit (depth + 1)) (some whole) none
      (.ofErasure s.registry (Builtin.stringClass s.registry))).Gives
        (some (.string (joinTexts s.config.elementDelimiter (xs.map Value.text)))) := by
  refine convertIn_text_of_elements hs (fun x hx => ?_) hbase hwhole limit depth
  rw [(hxs x hx).erasure]
  exact kind.meetsFirst_text hbase hkind

variable (hdelimiter : s.config.elementDelimiter ≠ "")
  (hapart : ∀ x ∈ xs, ∀ c ∈ x.text.toList, c ∉ s.config.elementDelimiter.toList)
  {target element : TypeDescriptor} {limit : Nat}
  (hfound : target.element? limit = some (some element)) (hregistry : element.registry = s.registry)
  (helement : s.registry.boxed element.erasure = .ofClass (kind.class_ s.registry))

include hdelimiter hapart hfound hregistry helement

/-- The joined texts are converted to an array of the values. -/
theorem convertIn_array_gives (htarget : target.erasure.isArray = true) (depth : Nat) :
    (s.convertIn (s.contextAt limit (depth + 1))
      (some (.string (joinTexts s.config.elementDelimiter (xs.map Value.text)))) none target).Gives
        (some (.array element.erasure (xs.map some))) := by
  refine convertIn_array_of_elements hs hbase hfound
    (chooseConverter_element hs hbase hkind helement limit depth) ?_ htarget
  rw [splitElements_contextAt hdelimiter hxs hapart]
  exact convertElements_gives hs hbase hkind hxs hregistry helement limit depth

/-- They are converted to an array list of the values where a list is asked for. -/
theorem convertIn_list_gives (htarget : target.erasure = .ofClass s.registry.wellKnown.list)
    (hdefinite : element.isDefinite limit = some true) (depth : Nat) :
    (s.convertIn (s.contextAt limit (depth + 1))
      (some (.string (joinTexts s.config.elementDelimiter (xs.map Value.text)))) none target).Gives
        (some (.collection s.registry.wellKnown.arrayList (xs.map some))) := by
  refine convertIn_list_of_elements hs hbase hfound
    (chooseConverter_element hs hbase hkind helement limit depth) ?_ htarget hdefinite
  rw [splitElements_contextAt hdelimiter hxs hapart]
  exact convertElements_gives hs hbase hkind hxs hregistry helement limit depth

end

end

/--
Values of one kind in an array or a list, with texts in which no character of the delimiter occurs:
the text that they are converted to is converted to an array and to a list of the same values.
-/
theorem convert_splits_joined {r : Registry} (hbase : r.ExtendsBase) {config : ConversionConfig}
    (hdelimiter : config.elementDelimiter ≠ "") {s : ConversionService}
    (hs : (bare r config).addDefaults = .ok s) {kind : ElementKind} (hkind : kind.IsPlain r)
    {xs : List Value} (hxs : ∀ x ∈ xs, kind.Holds r x)
    (hapart : ∀ x ∈ xs, ∀ c ∈ x.text.toList, c ∉ config.elementDelimiter.toList) {whole : Value}
    (hwhole : IsWhole r xs whole) {c : ClassId}
    (hc : r.boxed (.ofClass c) = .ofClass (kind.class_ r)) :
    ∀ᶠ limit in Filter.atTop, ∃ text,
      (s.convert limit (some whole) (.ofErasure r (Builtin.stringClass r))).Gives
        (some (.string text)) ∧
      (s.convert limit (some (.string text)) (.ofErasure r (Erasure.ofClass c).array)).Gives
        (some (.array (.ofClass c) (xs.map some))) ∧
      ∃ list, TypeDescriptor.ofNode limit r (some (.ofExpr (.listOf (.ofClass c)))) = some list ∧
        (s.convert limit (some (.string text)) list).Gives
          (some (.collection r.wellKnown.arrayList (xs.map some))) := by
  obtain ⟨rfl, -⟩ := onlyBuiltin_of_addDefaults hs
  obtain rfl := config_of_addDefaults hs
  rcases TypeDescriptor.exists_isElement_array (r := s.registry) c with
    ⟨element, hregistry, herasure, harray⟩
  rcases TypeDescriptor.exists_isElement_list hbase c with
    ⟨element', hregistry', herasure', hlist⟩
  filter_upwards [harray, hlist, TypeDescriptor.ofNode_listOf c, Filter.eventually_gt_atTop 0] with
    limit hfound hfound' hnode hlimit
  obtain ⟨depth, rfl⟩ := Nat.exists_eq_add_one_of_ne_zero hlimit.ne'
  refine ⟨_, convertIn_text_gives hs hbase hkind hxs hwhole _ depth, ?_, _, hnode, ?_⟩
  · have hgives := convertIn_array_gives hs hbase hkind hxs hdelimiter hapart hfound.1 hregistry
      (by rwa [herasure]) (isArray_array _) depth
    rwa [herasure] at hgives
  · refine convertIn_list_gives hs hbase hkind hxs hdelimiter hapart hfound'.1 hregistry'
      (by rwa [herasure']) ?_ hfound'.2 depth
    rw [hbase.wellKnown]
    rfl

theorem isPlainEnum_colors : IsPlainEnum colors ⟨37⟩ where
  isEnum := rfl
  superclasses a ha hclass := by
    have habove : ∃ entries : List Erasure, .ofClass ⟨37⟩ ∈ entries ∧
        (∀ a ∈ entries, ∀ s ∈ colors.supertypes a, s ∈ entries) ∧
        ∀ a ∈ entries, colors.isInterface a = false →
          a = .ofClass ⟨37⟩ ∨ a = .ofClass colors.wellKnown.enumClass ∨ a = colors.object := by
      refine ⟨[⟨37⟩, Bootstrap.wellKnown.enumClass, Bootstrap.wellKnown.comparable,
        Bootstrap.wellKnown.serializable, Bootstrap.wellKnown.object].map .ofClass, ?_⟩
      decide
    rcases habove with ⟨entries, hself, hclosed, hclasses⟩
    exact hclasses a (mem_of_isBelow hclosed hself ha) hclass
  notCollection := rfl

/-- Two colors are joined with a bar between them, and split again. -/
theorem convert_splits_joined_colors :
    ∃ s, (bare colors { elementDelimiter := " | ", trimElements := false }).addDefaults = .ok s ∧
      ∀ᶠ limit in Filter.atTop, ∃ text,
        (s.convert limit (some (.array (.ofClass ⟨37⟩)
          ([.enumConstant ⟨37⟩ "RED", .enumConstant ⟨37⟩ "RED"].map some)))
          (.ofErasure colors (Builtin.stringClass colors))).Gives (some (.string text)) ∧
        (s.convert limit (some (.string text))
          (.ofErasure colors (Erasure.ofClass ⟨37⟩).array)).Gives
            (some (.array (.ofClass ⟨37⟩)
              ([.enumConstant ⟨37⟩ "RED", .enumConstant ⟨37⟩ "RED"].map some))) := by
  have hbase : colors.ExtendsBase := extendsBase_bootstrap.push _
  rcases exists_addDefaults colors { elementDelimiter := " | ", trimElements := false } with ⟨s, hs⟩
  have hkind : ElementKind.IsPlain colors (.constant ⟨37⟩) := isPlainEnum_colors
  have hred : ElementKind.Holds colors (.constant ⟨37⟩) (.enumConstant ⟨37⟩ "RED") := by
    have hdeclared : (colors.class? ⟨37⟩).any (·.enumConstants.contains "RED") = true := by
      decide
    rcases (Option.any_eq_true ..).mp hdeclared with ⟨d, hd, hname⟩
    exact .constant hd (List.contains_iff_mem.mp hname) ⟨by decide, by decide⟩
  have hxs : ∀ x ∈ [Value.enumConstant ⟨37⟩ "RED", .enumConstant ⟨37⟩ "RED"],
      ElementKind.Holds colors (.constant ⟨37⟩) x := by
    simpa using hred
  have hapart : ∀ x ∈ [Value.enumConstant ⟨37⟩ "RED", .enumConstant ⟨37⟩ "RED"],
      ∀ c ∈ x.text.toList, c ∉ " | ".toList := by
    simp [Value.text]
  refine ⟨s, hs, ?_⟩
  filter_upwards [convert_splits_joined hbase (by decide) hs hkind hxs hapart
    (.array (.ofClass ⟨37⟩)) (show colors.boxed (.ofClass ⟨37⟩) = .ofClass ⟨37⟩ from rfl)] with
    limit h
  rcases h with ⟨text, hjoined, hsplit, -⟩
  exact ⟨text, hjoined, hsplit⟩

end ConversionService

end TypeConversion
