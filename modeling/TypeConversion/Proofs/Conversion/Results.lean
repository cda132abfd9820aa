import TypeConversion.Builtin.Elements
import TypeConversion.Proofs.Conversion.Attempt
import TypeConversion.Proofs.Conversion.CollectionClass

/-!
# What the built-in converters give

For every built-in converter, the run-time type of what it gives when it gives something.  Scalars
are of the box of the target; enum constants are of the target; the converters into arrays and
collections give elements that the service has converted to the element type of the target.
-/

namespace TypeConversion

open Attempt

namespace NumericKind

/-- The class that boxes the numbers of a kind. -/
def box (r : Registry) : NumericKind → ClassId
  | byte => r.wellKnown.byte
  | short => r.wellKnown.short
  | int => r.wellKnown.integer
  | long => r.wellKnown.long
  | float => r.wellKnown.float
  | double => r.wellKnown.double

theorem eq_box_of_mem_boxes {r : Registry} {c : ClassId} {kind : NumericKind}
    (h : (c, kind) ∈ boxes r) : c = kind.box r := by
  simp only [boxes, List.mem_cons, Prod.mk.injEq, List.not_mem_nil, or_false] at h
  rcases h with ⟨rfl, rfl⟩ | ⟨rfl, rfl⟩ | ⟨rfl, rfl⟩ | ⟨rfl, rfl⟩ | ⟨rfl, rfl⟩ | ⟨rfl, rfl⟩
  all_goals rfl

theorem box_mem_boxes (r : Registry) (kind : NumericKind) :
    kind.box r ∈ r.wellKnown.boxes.map (·.2) := by
  cases kind <;> simp [box, WellKnown.boxes]

/-- A type that holds numbers of a kind is boxed as the box of the kind. -/
theorem boxed_of_ofErasure? {r : Registry} {e : Erasure} {kind : NumericKind}
    (h : ofErasure? r e = some kind) : r.boxed e = .ofClass (kind.box r) := by
  rcases Option.bind_eq_some_iff.mp h with ⟨c, hc, hlookup⟩
  rcases List.lookup_eq_some_iff.mp hlookup with ⟨before, after, hsplit, -⟩
  have hmem : (c, kind) ∈ boxes r := by
    rw [hsplit]
    simp
  rw [← eq_box_of_mem_boxes hmem]
  exact Erasure.eq_ofClass_of_asClass? hc

/-- A type whose box boxes numbers holds numbers. -/
theorem isSome_ofErasure?_of_boxed {r : Registry} {e : Erasure} {c : ClassId} {kind : NumericKind}
    (hc : (c, kind) ∈ boxes r) (h : r.boxed e = .ofClass c) : (ofErasure? r e).isSome = true := by
  rw [ofErasure?, h, Erasure.asClass?_ofClass, Option.bind_some]
  cases hlookup : (boxes r).lookup c with
  | some _ => rfl
  | none =>
    have hne := List.lookup_eq_none_iff.mp hlookup _ hc
    simp at hne

/-- Arrays hold no numbers. -/
theorem ofErasure?_of_isArray {r : Registry} {e : Erasure} (h : e.isArray = true) :
    ofErasure? r e = none := by
  simp [ofErasure?, Registry.boxed, Erasure.asClass?, h]

/-- What numbers a type holds depends on the bootstrap classes only. -/
theorem ofErasure?_eq_bootstrap {r : Registry} (hbase : r.ExtendsBase) (e : Erasure) :
    ofErasure? r e = ofErasure? Registry.bootstrap e := by
  simp only [ofErasure?, boxes, hbase.boxed_eq, hbase.wellKnown]
  rfl

theorem erasure_ofInteger (r : Registry) (kind : NumericKind) (n : Int) :
    (kind.ofInteger n).erasure r = .ofClass (kind.box r) := by
  cases kind <;> rfl

/-- Numbers that are read are of the kind that they are read as. -/
theorem erasure_of_read (r : Registry) {kind : NumericKind} {text : String} {v : Value}
    (h : kind.read text = .ok v) : v.erasure r = .ofClass (kind.box r) := by
  cases kind with
  | byte | short | int | long =>
    simp only [read, range?] at h
    split at h
    · obtain rfl := Except.ok.inj h
      exact erasure_ofInteger r _ _
    · simp at h
  | float | double =>
    rw [read] at h
    split at h
    · obtain rfl := Except.ok.inj h
      rfl
    · simp at h

/-- Numbers that are converted are of the kind that they are converted to. -/
theorem erasure_of_ofNumber? (r : Registry) {kind : NumericKind} {n : AnyNumber} {v : Value}
    (h : kind.ofNumber? n = some v) : v.erasure r = .ofClass (kind.box r) := by
  cases kind with
  | byte | short | int | long =>
    rcases Option.map_eq_some_iff.mp h with ⟨i, -, rfl⟩
    exact erasure_ofInteger r _ i
  | float | double =>
    obtain rfl := Option.some.inj h
    rfl

end NumericKind

namespace Builtin

variable {r : Registry} {ctx : ConversionContext} {value : Option Value}
  {source target : TypeDescriptor} {result : Value}

theorem exists_of_onValue {f : Value → Attempt (Option Value)}
    (hrun : (onValue value f).Gives (some result)) :
    ∃ v, value = some v ∧ (f v).Gives (some result) := by
  cases value with
  | none => simp [onValue, gives_pure_iff] at hrun
  | some v => exact ⟨v, rfl, hrun⟩

theorem exists_of_onText {name : String} {f : Value → String → Attempt (Option Value)}
    (hrun : (onText ctx name value target f).Gives (some result)) :
    ∃ v text, value = some v ∧ (f v text).Gives (some result) := by
  rcases exists_of_onValue hrun with ⟨v, rfl, h⟩
  split at h
  · rename_i text _
    exact ⟨v, text, rfl, h⟩
  · exact absurd h (Converter.not_gives_mismatch _ _ _ _ _)

/-- A function on texts is only run on strings. -/
theorem onText_gives_iff {name : String} {v : Value} {f : Value → String → Attempt (Option Value)}
    {out : Option Value} : (onText ctx name (some v) target f).Gives out ↔
      ∃ text, v = .string text ∧ (f v text).Gives out := by
  cases v <;> simp [onText, onValue, Value.asText?, Converter.not_gives_mismatch]

/-! ## Scalars -/

/-- A number from a string is of the kind that the target holds. -/
theorem stringToNumber_gives
    (hrun : ((stringToNumber r).run ctx value source target).Gives (some result)) :
    ∃ kind, NumericKind.ofErasure? target.registry target.erasure = some kind ∧
      result.erasure target.registry = .ofClass (kind.box target.registry) := by
  rcases exists_of_onText hrun with ⟨v, text, rfl, h⟩
  dsimp only at h
  split at h
  · simp [gives_pure_iff] at h
  · split at h
    · exact absurd h (Converter.not_gives_mismatch _ _ _ _ _)
    · rename_i kind hkind
      split at h
      · rename_i number hread
        obtain rfl : number = result := by simpa [gives_pure_iff] using h
        exact ⟨kind, hkind, NumericKind.erasure_of_read _ hread⟩
      · exact absurd h (Converter.not_gives_invalid _ _ _ _ _)

/-- A number from a number is of the kind that the target holds. -/
theorem numberToNumber_gives
    (hrun : ((numberToNumber r).run ctx value source target).Gives (some result)) :
    ∃ kind, NumericKind.ofErasure? target.registry target.erasure = some kind ∧
      result.erasure target.registry = .ofClass (kind.box target.registry) := by
  rcases exists_of_onValue hrun with ⟨v, rfl, h⟩
  split at h
  · rename_i number kind _ hkind
    split at h
    · rename_i converted hconverted
      obtain rfl : converted = result := by simpa [gives_pure_iff] using h
      exact ⟨kind, hkind, NumericKind.erasure_of_ofNumber? _ hconverted⟩
    · exact absurd h (Converter.not_gives_invalid _ _ _ _ _)
  · exact absurd h (Converter.not_gives_mismatch _ _ _ _ _)

theorem stringToBoolean_gives
    (hrun : ((stringToBoolean r).run ctx value source target).Gives (some result)) :
    ∃ b, result = .boolean b := by
  rcases exists_of_onText hrun with ⟨v, text, rfl, h⟩
  dsimp only at h
  split at h
  · simp [gives_pure_iff] at h
  · rw [gives_pure_iff] at h
    exact ⟨_, (Option.some.inj h).symm⟩

theorem stringToCharacter_gives
    (hrun : ((stringToCharacter r).run ctx value source target).Gives (some result)) :
    ∃ c, result = .char c := by
  rcases exists_of_onText hrun with ⟨v, text, rfl, h⟩
  by_cases hempty : text.isEmpty = true
  · rw [if_pos hempty] at h
    simp [gives_pure_iff] at h
  · rw [if_neg hempty] at h
    cases hread : readInteger (.unsigned 32) (trimmed text).toList with
    | ok code =>
      rw [hread] at h
      dsimp only at h
      by_cases hvalid : code.toNat.isValidChar
      · rw [dif_pos hvalid, gives_pure_iff] at h
        exact ⟨_, (Option.some.inj h).symm⟩
      · rw [dif_neg hvalid] at h
        exact absurd h (Converter.not_gives_invalid _ _ _ _ _)
    | error _ =>
      rw [hread] at h
      dsimp only at h
      split at h
      · rw [gives_pure_iff] at h
        exact ⟨_, (Option.some.inj h).symm⟩
      · exact absurd h (Converter.not_gives_invalid _ _ _ _ _)

/-- An enum constant is of the target, which is an enum. -/
theorem stringToEnum_gives
    (hrun : ((stringToEnum r).run ctx value source target).Gives (some result)) :
    target.registry.isEnum target.erasure = true ∧
      result.erasure target.registry = target.erasure := by
  rcases exists_of_onText hrun with ⟨v, text, rfl, h⟩
  dsimp only at h
  split at h
  · simp [gives_pure_iff] at h
  · split at h
    · exact absurd h (Converter.not_gives_mismatch _ _ _ _ _)
    · rename_i c hc
      split at h
      · rw [gives_pure_iff] at h
        rw [← Option.some.inj h, Value.erasure]
        rcases Option.filter_eq_some_iff.mp hc with ⟨hc, henum⟩
        rw [Erasure.eq_ofClass_of_asClass? hc]
        exact ⟨henum, rfl⟩
      · exact absurd h (not_gives_throw _ _)

/-! ## Texts -/

theorem objectToString_gives
    (hrun : ((objectToString r).run ctx value source target).Gives (some result)) :
    ∃ v, value = some v ∧ result = .string v.text := by
  rw [objectToString, gives_pure_iff] at hrun
  rcases Option.map_eq_some_iff.mp hrun with ⟨v, rfl, rfl⟩
  exact ⟨v, rfl, rfl⟩

/-- The texts of elements are joined, of what holds elements. -/
theorem arrayToString_gives
    (hrun : ((arrayToString r).run ctx value source target).Gives (some result)) :
    ∃ component elements text, value = some (.array component elements) ∧
      (joinElements ctx elements).Gives text ∧ result = .string text := by
  rcases exists_of_onValue hrun with ⟨v, rfl, h⟩
  split at h
  · rcases (gives_bind_iff ..).mp h with ⟨text, hjoined, h⟩
    rw [gives_pure_iff] at h
    exact ⟨_, _, text, rfl, hjoined, (Option.some.inj h).symm⟩
  · exact absurd h (Converter.not_gives_mismatch _ _ _ _ _)

theorem collectionToString_gives
    (hrun : ((collectionToString r).run ctx value source target).Gives (some result)) :
    ∃ c elements text, value = some (.collection c elements) ∧
      (joinElements ctx elements).Gives text ∧ result = .string text := by
  rcases exists_of_onValue hrun with ⟨v, rfl, h⟩
  split at h
  · rcases (gives_bind_iff ..).mp h with ⟨text, hjoined, h⟩
    rw [gives_pure_iff] at h
    exact ⟨_, _, text, rfl, hjoined, (Option.some.inj h).symm⟩
  · exact absurd h (Converter.not_gives_mismatch _ _ _ _ _)

/-! ## Elements -/

/-- Elements that the service gave when it was asked for a type. -/
def Converted (ctx : ConversionContext) (element : TypeDescriptor)
    (elements : List (Option Value)) : Prop :=
  ∀ e, some e ∈ elements → ∃ x, (ctx.convert x none element).Gives (some e)

theorem targetElement_gives_iff {element : TypeDescriptor} :
    (targetElement ctx target).Gives element ↔
      target.element? ctx.limit = some (some element) := by
  rw [targetElement, gives_bind_iff]
  constructor
  · rintro ⟨found, hfound, h⟩
    rw [gives_ofWalk_iff] at hfound
    cases found with
    | none =>
      rcases (gives_bind_iff ..).mp h with ⟨text, -, h⟩
      exact absurd h (not_gives_throw _ _)
    | some d =>
      obtain rfl := (gives_pure_iff element d).mp h
      exact hfound
  · intro hfound
    exact ⟨some element, (gives_ofWalk_iff ..).mpr hfound, (gives_pure_iff ..).mpr rfl⟩

theorem converted_of_convertElements {element : TypeDescriptor}
    {elements converted : List (Option Value)}
    (h : (convertElements ctx element elements).Gives converted) :
    Converted ctx element converted := by
  rw [convertElements, gives_mapM_iff] at h
  intro e he
  induction h with
  | nil => simp at he
  | @cons x y _ _ hy _ ih =>
    rcases List.mem_cons.mp he with rfl | he
    · exact ⟨x, hy⟩
    · exact ih he

/-- An array whose elements the service gave for the element type of the target. -/
def BuildsArray (ctx : ConversionContext) (target : TypeDescriptor) (result : Value) : Prop :=
  ∃ element elements, target.element? ctx.limit = some (some element) ∧
    result = .array element.erasure elements ∧ Converted ctx element elements

/--
A collection for the target, whose elements the service gave for the element type of the target, or
are strings if that type is not definite.
-/
def BuildsCollection (ctx : ConversionContext) (target : TypeDescriptor) (result : Value) : Prop :=
  ∃ element c elements, target.element? ctx.limit = some (some element) ∧
    ctx.registry.collectionClass target.erasure = .ok c ∧ result = .collection c elements ∧
    (Converted ctx element elements ∨ element.isDefinite ctx.limit = some false ∧
      ∀ e, some e ∈ elements → ∃ text, e = .string text)

/-- What is built of elements for an array: an array of what they are converted to. -/
theorem array_gives_iff {elements : List (Option Value)} {out : Option Value} :
    (do
      let element ← targetElement ctx target
      return some (.array element.erasure (← convertElements ctx element elements)) :
        Attempt (Option Value)).Gives out ↔
      ∃ element converted, target.element? ctx.limit = some (some element) ∧
        (convertElements ctx element elements).Gives converted ∧
        out = some (.array element.erasure converted) := by
  simp only [gives_bind_iff, targetElement_gives_iff, gives_pure_iff, exists_and_left,
    eq_comm (b := out)]

theorem stringToArray_gives_iff {v : Value} {out : Option Value} :
    ((stringToArray r).run ctx (some v) source target).Gives out ↔
      ∃ text, v = .string text ∧ ∃ element converted,
        target.element? ctx.limit = some (some element) ∧
        (convertElements ctx element
          ((splitElements ctx text).map fun part => some (.string part))).Gives converted ∧
        out = some (.array element.erasure converted) := by
  simp only [stringToArray, onText_gives_iff, array_gives_iff]

theorem collectionToArray_gives_iff {v : Value} {out : Option Value} :
    ((collectionToArray r).run ctx (some v) source target).Gives out ↔
      ∃ c elements, v = .collection c elements ∧ ∃ element converted,
        target.element? ctx.limit = some (some element) ∧
        (convertElements ctx element elements).Gives converted ∧
        out = some (.array element.erasure converted) := by
  cases v with
  | collection c elements =>
    simp only [collectionToArray, onValue, array_gives_iff, Value.collection.injEq]
    constructor
    · intro h
      exact ⟨c, elements, ⟨rfl, rfl⟩, h⟩
    · rintro ⟨_, _, ⟨rfl, rfl⟩, h⟩
      exact h
  | _ => simp [collectionToArray, onValue, Converter.not_gives_mismatch]

theorem stringToArray_gives
    (hrun : ((stringToArray r).run ctx value source target).Gives (some result)) :
    BuildsArray ctx target result := by
  rcases exists_of_onValue hrun with ⟨v, rfl, -⟩
  rcases stringToArray_gives_iff.mp hrun with ⟨_, -, element, converted, helement, h, heq⟩
  exact ⟨element, converted, helement, Option.some.inj heq, converted_of_convertElements h⟩

theorem collectionToArray_gives
    (hrun : ((collectionToArray r).run ctx value source target).Gives (some result)) :
    BuildsArray ctx target result := by
  rcases exists_of_onValue hrun with ⟨v, rfl, -⟩
  rcases collectionToArray_gives_iff.mp hrun with ⟨_, _, -, element, converted, helement, h, heq⟩
  exact ⟨element, converted, helement, Option.some.inj heq, converted_of_convertElements h⟩

/-- A collection that is created from elements is built, if the elements kept are as they should. -/
theorem buildsCollection_of_gives {element : TypeDescriptor} {elements : List (Option Value)}
    (helement : target.element? ctx.limit = some (some element))
    (h : (do
      let built ← Attempt.ofExcept (ctx.registry.createCollection target.erasure elements)
      return some built : Attempt (Option Value)).Gives (some result))
    (hkept : ∀ kept, (∀ e ∈ kept, e ∈ elements) → Converted ctx element kept ∨
      element.isDefinite ctx.limit = some false ∧ ∀ e, some e ∈ kept → ∃ text, e = .string text) :
    BuildsCollection ctx target result := by
  rcases (gives_bind_iff ..).mp h with ⟨built, hbuilt, h⟩
  obtain rfl : built = result := by simpa [gives_pure_iff] using h
  rw [gives_ofExcept_iff] at hbuilt
  rcases Registry.exists_of_createCollection hbuilt with ⟨c, kept, hc, rfl, hmem⟩
  exact ⟨element, c, kept, helement, hc, rfl, hkept kept hmem⟩

theorem stringToCollection_gives
    (hrun : ((stringToCollection r).run ctx value source target).Gives (some result)) :
    BuildsCollection ctx target result := by
  rcases exists_of_onText hrun with ⟨v, text, rfl, h⟩
  rcases (gives_bind_iff ..).mp h with ⟨element, helement, h⟩
  rcases (gives_bind_iff ..).mp h with ⟨definite, hdefinite, h⟩
  rw [gives_ofWalk_iff] at hdefinite
  cases definite with
  | true =>
    rcases (gives_bind_iff ..).mp h with ⟨elements, helements, h⟩
    refine buildsCollection_of_gives (targetElement_gives_iff.mp helement) h ?_
    exact fun kept hkept =>
      .inl fun e he => converted_of_convertElements helements e (hkept _ he)
  | false =>
    rcases (gives_bind_iff ..).mp h with ⟨elements, helements, h⟩
    refine buildsCollection_of_gives (targetElement_gives_iff.mp helement) h ?_
    refine fun kept hkept => .inr ⟨hdefinite, fun e he => ?_⟩
    have hmem := hkept _ he
    rw [← (gives_pure_iff elements _).mp helements] at hmem
    rcases List.mem_map.mp hmem with ⟨part, -, hpart⟩
    exact ⟨part, (Option.some.inj hpart).symm⟩

theorem arrayToCollection_gives_iff {v : Value} {out : Option Value} :
    ((arrayToCollection r).run ctx (some v) source target).Gives out ↔
      ∃ component elements, v = .array component elements ∧ ∃ element converted built,
        target.element? ctx.limit = some (some element) ∧
        (convertElements ctx element elements).Gives converted ∧
        ctx.registry.createCollection target.erasure converted = .ok built ∧
        out = some built := by
  cases v with
  | array component elements =>
    simp only [arrayToCollection, onValue, gives_bind_iff, targetElement_gives_iff,
      gives_ofExcept_iff, gives_pure_iff, eq_comm (b := out), Value.array.injEq]
    constructor
    · rintro ⟨element, helement, converted, h, built, hbuilt, hout⟩
      exact ⟨_, _, ⟨rfl, rfl⟩, element, converted, built, helement, h, hbuilt, hout⟩
    · rintro ⟨_, _, ⟨rfl, rfl⟩, element, converted, built, helement, h, hbuilt, hout⟩
      exact ⟨element, helement, converted, h, built, hbuilt, hout⟩
  | _ => simp [arrayToCollection, onValue, Converter.not_gives_mismatch]

theorem arrayToCollection_gives
    (hrun : ((arrayToCollection r).run ctx value source target).Gives (some result)) :
    BuildsCollection ctx target result := by
  rcases exists_of_onValue hrun with ⟨v, rfl, -⟩
  rcases arrayToCollection_gives_iff.mp hrun with
    ⟨_, _, -, element, converted, built, helement, h, hbuilt, heq⟩
  obtain rfl := Option.some.inj heq
  rcases Registry.exists_of_createCollection hbuilt with ⟨c, kept, hc, rfl, hmem⟩
  exact ⟨element, c, kept, helement, hc, rfl,
    .inl fun e he => converted_of_convertElements h e (hmem _ he)⟩

end Builtin

end TypeConversion
