import TypeConversion.Proofs.Conversion.Delimited
import TypeConversion.Proofs.Conversion.Wholes

/-!
# What is split is joined again

A text is converted to an array or to a list of strings, its parts, and these are converted to the
text.  Between strings there is only the converter that leaves a text what it is, so no part is
changed, dropped or taken for null, the empty ones between two delimiters and at the ends included.

**Results**

* `convertElements_gives_strings`: strings are converted to themselves;
* `convert_joins_split`: so what a text is split into is joined to the text.
-/

namespace TypeConversion

open Attempt Registry

namespace ConversionService

/-- Strings have their own texts. -/
theorem meetsFirst_string {r : Registry} (hbase : r.ExtendsBase) :
    MeetsFirst r (Builtin.stringClass r) (Builtin.stringClass r) (Builtin.objectToString r) := by
  have hother : ∀ e ∈ [Builtin.anyArray r, Builtin.collectionInterface r],
      e ∉ r.classHierarchy (Builtin.stringClass r) := by
    intro e he hmem
    refine hbase.not_mem_stringLineage (e := e) ?_
      (hbase.mem_stringLineage_of_mem_classHierarchy hmem)
    simp only [List.mem_cons, List.not_mem_nil, or_false] at he ⊢
    rcases he with rfl | rfl
    · exact .inr (.inr (.inr rfl))
    · exact .inr (.inr (.inl rfl))
  exact meetsFirst_text hbase (hother _ (by simp)) (hother _ (by simp))

variable {s : ConversionService}

section

variable (hs : (bare s.registry s.config).addDefaults = .ok s) (hbase : s.registry.ExtendsBase)

include hs hbase

theorem chooseConverter_string {element : TypeDescriptor}
    (helement : element.erasure = Builtin.stringClass s.registry) (limit depth : Nat) :
    s.chooseConverter (s.contextAt limit depth) (s.descriptor (Builtin.stringClass s.registry))
      element = some (some (Builtin.objectToString s.registry)) := by
  refine chooseConverter_of_meetsFirst hs (registry_contextAt ..) ?_ rfl
  rw [helement]
  exact meetsFirst_string hbase

/-- Strings are converted to themselves where strings are asked for. -/
theorem convertElements_gives_strings {element : TypeDescriptor}
    (helement : element.erasure = Builtin.stringClass s.registry) (limit depth : Nat)
    (parts : List String) :
    (Builtin.convertElements (s.contextAt limit (depth + 1)) element
      (parts.map fun part => some (.string part))).Gives
        ((parts.map Value.string).map some) := by
  rw [Builtin.convertElements, gives_mapM_iff, List.forall₂_map_left_iff, List.map_map,
    List.forall₂_map_right_iff, List.forall₂_same]
  intro part _
  exact convertIn_gives_of_chosen (chooseConverter_string hs hbase helement limit depth)
    ((gives_pure_iff ..).mpr rfl)

/-- An array or a list of the parts of a text is converted to the text. -/
theorem convertIn_joins {text : String} (htrim : s.config.trimElements = false)
    (hblank : isAllBlank text = false) {whole : Value} {limit splitDepth : Nat}
    (hwhole : IsWhole s.registry
      ((Builtin.splitElements (s.contextAt limit splitDepth) text).map Value.string) whole)
    (depth : Nat) :
    (s.convertIn (s.contextAt limit (depth + 1)) (some whole) none
      (.ofErasure s.registry (Builtin.stringClass s.registry))).Gives (some (.string text)) := by
  have hown : ∀ x ∈ (Builtin.splitElements (s.contextAt limit splitDepth) text).map Value.string,
      MeetsFirst s.registry (x.erasure s.registry) (Builtin.stringClass s.registry)
        (Builtin.objectToString s.registry) := by
    intro x hx
    rcases List.mem_map.mp hx with ⟨part, -, rfl⟩
    exact meetsFirst_string hbase
  have htexts : ∀ parts : List String, (parts.map Value.string).map Value.text = parts := by
    intro parts
    rw [List.map_map]
    exact List.map_id parts
  have hgives := convertIn_text_of_elements hs hown hbase hwhole limit depth
  rw [← config_contextAt s limit splitDepth] at htrim hgives
  rwa [htexts, Builtin.joinTexts_splitElements htrim hblank] at hgives

end

/--
A text that is not blank, and a service that drops no blanks around elements: what the text is
converted to as an array of strings, and as a list of strings, is converted to the text again.
-/
theorem convert_joins_split {r : Registry} (hbase : r.ExtendsBase) {config : ConversionConfig}
    (htrim : config.trimElements = false) {s : ConversionService}
    (hs : (bare r config).addDefaults = .ok s) {text : String} (hblank : isAllBlank text = false) :
    ∀ᶠ limit in Filter.atTop,
      (∃ array,
        (s.convert limit (some (.string text))
          (.ofErasure r (Builtin.stringClass r).array)).Gives (some array) ∧
        (s.convert limit (some array) (.ofErasure r (Builtin.stringClass r))).Gives
          (some (.string text))) ∧
      ∃ target list,
        TypeDescriptor.ofNode limit r
          (some (.ofExpr (.listOf (.ofClass r.wellKnown.string)))) = some target ∧
        (s.convert limit (some (.string text)) target).Gives (some list) ∧
        (s.convert limit (some list) (.ofErasure r (Builtin.stringClass r))).Gives
          (some (.string text)) := by
  obtain ⟨rfl, -⟩ := onlyBuiltin_of_addDefaults hs
  obtain rfl := config_of_addDefaults hs
  rcases TypeDescriptor.exists_isElement_array (r := s.registry) s.registry.wellKnown.string with
    ⟨element, -, herasure, harray⟩
  rcases TypeDescriptor.exists_isElement_list hbase s.registry.wellKnown.string with
    ⟨element', -, herasure', hlist⟩
  filter_upwards [harray, hlist, TypeDescriptor.ofNode_listOf s.registry.wellKnown.string,
    Filter.eventually_gt_atTop 0] with limit hfound hfound' hnode hlimit
  obtain ⟨depth, rfl⟩ := Nat.exists_eq_add_one_of_ne_zero hlimit.ne'
  constructor
  · refine ⟨_, convertIn_array_of_elements hs hbase hfound.1
      (chooseConverter_string hs hbase herasure _ depth)
      (convertElements_gives_strings hs hbase herasure _ depth _) (isArray_array _), ?_⟩
    exact convertIn_joins hs hbase htrim hblank (.array element.erasure) depth
  · have htarget : (TypeDescriptor.listOf s.registry s.registry.wellKnown.string).erasure =
        .ofClass s.registry.wellKnown.list := by
      rw [hbase.wellKnown]
      rfl
    refine ⟨_, _, hnode, convertIn_list_of_elements hs hbase hfound'.1
      (chooseConverter_string hs hbase herasure' _ depth)
      (convertElements_gives_strings hs hbase herasure' _ depth _) htarget hfound'.2, ?_⟩
    exact convertIn_joins hs hbase htrim hblank .list depth

/-- A text that begins and ends with the delimiter, which overlaps itself. -/
theorem convert_joins_split_overlapping :
    ∃ s, (bare bootstrap { elementDelimiter := "aa", trimElements := false }).addDefaults = .ok s ∧
      isAllBlank "aaab aa" = false ∧
      ∀ᶠ limit in Filter.atTop,
        (∃ array,
          (s.convert limit (some (.string "aaab aa"))
            (.ofErasure bootstrap (Builtin.stringClass bootstrap).array)).Gives (some array) ∧
          (s.convert limit (some array)
            (.ofErasure bootstrap (Builtin.stringClass bootstrap))).Gives
              (some (.string "aaab aa"))) ∧
        ∃ target list,
          TypeDescriptor.ofNode limit bootstrap
            (some (.ofExpr (.listOf (.ofClass Bootstrap.wellKnown.string)))) = some target ∧
          (s.convert limit (some (.string "aaab aa")) target).Gives (some list) ∧
          (s.convert limit (some list)
            (.ofErasure bootstrap (Builtin.stringClass bootstrap))).Gives
              (some (.string "aaab aa")) := by
  rcases exists_addDefaults bootstrap { elementDelimiter := "aa", trimElements := false } with
    ⟨s, hs⟩
  have hblank : isAllBlank "aaab aa" = false := by decide
  exact ⟨s, hs, hblank, convert_joins_split extendsBase_bootstrap rfl hs hblank⟩

end ConversionService

end TypeConversion
