import TypeConversion.Proofs.Conversion.FirstMet
import TypeConversion.Proofs.Conversion.Lists

/-!
# Arrays and lists as a whole

A text is converted to an array or to a list if its parts are converted to elements, and an array or
a list is converted to the texts of its elements with delimiters between them.  Which converters are
used for the whole is decided by what is met first; what is asked here is only what becomes of the
elements.

**Results**

* `convertIn_text_of_elements`: arrays and lists of values that have their own texts;
* `convertIn_array_of_elements`, `convertIn_list_of_elements`: texts whose parts are converted.
-/

namespace TypeConversion

open Attempt Registry

namespace ConversionService

variable {s : ConversionService}

theorem config_of_addDefaults {r : Registry} {config : ConversionConfig}
    (hs : (bare r config).addDefaults = .ok s) : s.config = config := by
  obtain rfl := Except.ok.inj hs
  rfl

theorem config_contextAt (s : ConversionService) (limit depth : Nat) :
    (s.contextAt limit depth).config = s.config := by
  cases depth <;> rfl

theorem targetElement_gives {target element : TypeDescriptor} {limit : Nat}
    (hfound : target.element? limit = some (some element)) (depth : Nat) :
    (Builtin.targetElement (s.contextAt limit depth) target).Gives element := by
  rwa [Builtin.targetElement_gives_iff, limit_contextAt]

/-- An array of values, whatever its component is declared to be, or an array list of them. -/
inductive IsWhole (r : Registry) (xs : List Value) : Value → Prop
  | array (component : Erasure) : IsWhole r xs (.array component (xs.map some))
  | list : IsWhole r xs (.collection r.wellKnown.arrayList (xs.map some))

section

variable (hs : (bare s.registry s.config).addDefaults = .ok s)

include hs

/-! ## To texts -/

/-- Values whose text is met first are joined by their own texts. -/
theorem elementString_gives_text {x : Value} (hfirst : MeetsFirst s.registry (x.erasure s.registry)
      (Builtin.stringClass s.registry) (Builtin.objectToString s.registry)) (limit depth : Nat) :
    (Builtin.elementString (s.contextAt limit (depth + 1)) (some x)).Gives x.text := by
  have hchosen : s.chooseConverter (s.contextAt limit depth) (s.descriptor (x.erasure s.registry))
      (.ofErasure s.registry (Builtin.stringClass s.registry)) =
        some (some (Builtin.objectToString s.registry)) :=
    chooseConverter_of_meetsFirst hs (registry_contextAt ..) hfirst rfl
  have hgives := convertIn_gives_of_chosen hchosen ((gives_pure_iff ..).mpr rfl)
  exact (gives_bind_iff ..).mpr ⟨_, hgives, (gives_pure_iff ..).mpr rfl⟩

section

variable {xs : List Value} (hxs : ∀ x ∈ xs, MeetsFirst s.registry (x.erasure s.registry)
  (Builtin.stringClass s.registry) (Builtin.objectToString s.registry))

include hxs

theorem joinElements_gives_texts (limit depth : Nat) :
    (Builtin.joinElements (s.contextAt limit (depth + 1)) (xs.map some)).Gives
      (joinTexts s.config.elementDelimiter (xs.map Value.text)) := by
  have hparts : ((xs.map some).mapM (Builtin.elementString (s.contextAt limit (depth + 1)))).Gives
      (xs.map Value.text) := by
    rw [gives_mapM_iff, List.forall₂_map_left_iff, List.forall₂_map_right_iff, List.forall₂_same]
    exact fun x hx => elementString_gives_text hs (hxs x hx) limit depth
  exact (gives_bind_iff ..).mpr ⟨_, hparts, (gives_pure_iff ..).mpr rfl⟩

/-- Arrays and lists of values are converted to the joined texts. -/
theorem convertIn_text_of_elements (hbase : s.registry.ExtendsBase) {whole : Value}
    (hwhole : IsWhole s.registry xs whole) (limit depth : Nat) :
    (s.convertIn (s.contextAt limit (depth + 1)) (some whole) none
      (.ofErasure s.registry (Builtin.stringClass s.registry))).Gives
        (some (.string (joinTexts s.config.elementDelimiter (xs.map Value.text)))) := by
  have hjoined := joinElements_gives_texts hs hxs limit depth
  cases hwhole with
  | array component =>
    refine convertIn_gives_of_chosen (chooseConverter_of_meetsFirst hs (registry_contextAt ..)
      (meetsFirst_arrayText hbase (isArray_array _)) rfl) ?_
    exact (gives_bind_iff ..).mpr ⟨_, hjoined, (gives_pure_iff ..).mpr rfl⟩
  | list =>
    refine convertIn_gives_of_chosen (chooseConverter_of_meetsFirst hs (registry_contextAt ..)
      (meetsFirst_listText hbase) rfl) ?_
    exact (gives_bind_iff ..).mpr ⟨_, hjoined, (gives_pure_iff ..).mpr rfl⟩

end

/-! ## From texts -/

section

variable (hbase : s.registry.ExtendsBase) {target element : TypeDescriptor} {limit depth : Nat}
  (hfound : target.element? limit = some (some element)) {c : Converter}
  (hchosen : s.chooseConverter (s.contextAt limit depth)
    (s.descriptor (Builtin.stringClass s.registry)) element = some (some c))

include hfound hchosen

omit hs in
/-- Strings are taken for elements where they are taken for one. -/
theorem wholeToElements_of_chosen :
    Builtin.wholeToElements (s.contextAt limit (depth + 1))
      (s.descriptor (Builtin.stringClass s.registry)) target = some true := by
  have hcan : (s.contextAt limit (depth + 1)).canConvert
      (some (s.descriptor (Builtin.stringClass s.registry))) element = some true := by
    rw [contextAt]
    dsimp only
    rw [canConvertIn, hchosen]
    rfl
  rw [Builtin.wholeToElements, limit_contextAt, hfound]
  change Builtin.canConvertElements _ (some _) (some element) = _
  rw [Builtin.canConvertElements, hcan]
  rfl

variable {text : String} {elements : List (Option Value)}
  (hconverted : (Builtin.convertElements (s.contextAt limit (depth + 1)) element
    ((Builtin.splitElements (s.contextAt limit (depth + 1)) text).map
      fun part => some (.string part))).Gives elements)

include hbase hconverted

/-- A text is converted to an array of what its parts are converted to. -/
theorem convertIn_array_of_elements (htarget : target.erasure.isArray = true) :
    (s.convertIn (s.contextAt limit (depth + 1)) (some (.string text)) none target).Gives
      (some (.array element.erasure elements)) := by
  have hwhole : s.chooseConverter (s.contextAt limit (depth + 1))
      (s.descriptor (Builtin.stringClass s.registry)) target =
        some (some (Builtin.stringToArray s.registry)) :=
    chooseConverter_of_meetsFirst hs (registry_contextAt ..) (meetsFirst_array hbase htarget)
      (wholeToElements_of_chosen hfound hchosen)
  refine convertIn_gives_of_chosen hwhole ?_
  exact (gives_bind_iff ..).mpr ⟨element, targetElement_gives hfound (depth + 1),
    (gives_bind_iff ..).mpr ⟨_, hconverted, (gives_pure_iff ..).mpr rfl⟩⟩

/-- It is converted to an array list of it where a list is asked for. -/
theorem convertIn_list_of_elements (htarget : target.erasure = .ofClass s.registry.wellKnown.list)
    (hdefinite : element.isDefinite limit = some true) :
    (s.convertIn (s.contextAt limit (depth + 1)) (some (.string text)) none target).Gives
      (some (.collection s.registry.wellKnown.arrayList elements)) := by
  have hwhole : s.chooseConverter (s.contextAt limit (depth + 1))
      (s.descriptor (Builtin.stringClass s.registry)) target =
        some (some (Builtin.stringToCollection s.registry)) := by
    refine chooseConverter_of_meetsFirst hs (registry_contextAt ..) ?_
      (wholeToElements_of_chosen hfound hchosen)
    rw [htarget]
    exact meetsFirst_list hbase
  have hbuilt : (Attempt.ofExcept ((s.contextAt limit (depth + 1)).registry.createCollection
      target.erasure elements)).Gives (.collection s.registry.wellKnown.arrayList elements) := by
    rw [gives_ofExcept_iff, registry_contextAt, htarget]
    exact hbase.createCollection_list _
  refine convertIn_gives_of_chosen hwhole ?_
  refine (gives_bind_iff ..).mpr ⟨element, targetElement_gives hfound (depth + 1), ?_⟩
  refine (gives_bind_iff ..).mpr ⟨true, ?_, (gives_bind_iff ..).mpr ⟨_, hconverted,
    (gives_bind_iff ..).mpr ⟨_, hbuilt, (gives_pure_iff ..).mpr rfl⟩⟩⟩
  rw [gives_ofWalk_iff, limit_contextAt]
  exact hdefinite

end

end

end ConversionService

end TypeConversion
