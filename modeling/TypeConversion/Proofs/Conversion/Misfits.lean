import TypeConversion.Proofs.Conversion.Element
import TypeConversion.Proofs.Conversion.Results

/-!
# Values that a converter is not for

A converter that fails either cannot make anything of the value it is given, or was given a value or
a target that it is not for at all.  The latter is a misfit.

For every built-in converter, what value and target have to be so that it does not fail by a misfit:
the value is of the shape that the converter reads, the target is a number, an enum, or has
elements.  The converters into and out of arrays and collections ask the same of the service for
each of the elements.
-/

namespace TypeConversion

/-- A converter was given a value or a target that it is not for. -/
def ConversionError.IsMisfit : ConversionError → Prop
  | typeMismatch .. | missingElementType _ => True
  | invalidValue .. | unknownEnumConstant .. | unsupportedCollection _ => False

instance : DecidablePred ConversionError.IsMisfit
  | .typeMismatch .. | .missingElementType _ => isTrue trivial
  | .invalidValue .. | .unknownEnumConstant .. | .unsupportedCollection _ => isFalse not_false

namespace Attempt

variable {α β : Type}

/-- An attempt does not fail by a misfit. -/
def Fits (x : Attempt α) : Prop := ∀ e, x.run = some (.error e) → ¬e.IsMisfit

theorem fits_iff (x : Attempt α) :
    x.Fits ↔ x.run.all (fun | .ok _ => true | .error e => !decide e.IsMisfit) = true := by
  rw [Fits]
  rcases x.run with _ | (e | a)
  · simp
  · simp
  · simp

instance (x : Attempt α) : Decidable x.Fits := decidable_of_iff _ (fits_iff x).symm

theorem fits_pure (a : α) : (pure a : Attempt α).Fits := by
  intro e h
  simp [ExceptT.run_pure] at h

theorem fits_ofWalk (w : Walk α) : (ofWalk w).Fits := by
  intro e h
  simp [ofWalk, ExceptT.run_mk] at h

theorem fits_throw {e : ConversionError} (he : ¬e.IsMisfit) : (throw e : Attempt α).Fits := by
  intro e' h
  obtain rfl : e = e' := by simpa [ExceptT.run_throw] using h
  exact he

/-- One attempt after another fits if the first does, and the second for all that it is given. -/
theorem Fits.bind {x : Attempt α} {f : α → Attempt β} (hx : x.Fits)
    (hf : ∀ a, x.Gives a → (f a).Fits) : (x >>= f).Fits := by
  intro e h
  rw [ExceptT.run_bind] at h
  rcases Option.bind_eq_some_iff.mp h with ⟨outcome, hrun, h⟩
  cases outcome with
  | error e' =>
    obtain rfl : e' = e := by simpa using h
    exact hx e' hrun
  | ok a => exact hf a hrun e h

theorem fits_mapM {f : α → Attempt β} {xs : List α} (h : ∀ x ∈ xs, (f x).Fits) :
    (xs.mapM f).Fits := by
  induction xs with
  | nil => exact fits_pure []
  | cons x rest ih =>
    rcases List.forall_mem_cons.mp h with ⟨hx, hrest⟩
    rw [List.mapM_cons]
    exact hx.bind fun y _ => (ih hrest).bind fun ys _ => fits_pure _

end Attempt

open Attempt

/-- Refusing a value that a converter is for is no misfit. -/
theorem Converter.invalid_fits {α : Type} (ctx : ConversionContext) (value : String)
    (target : TypeDescriptor) (reason : String) :
    (invalid ctx value target reason : Attempt α).Fits :=
  (fits_ofWalk _).bind fun _ _ => fits_throw not_false

namespace Builtin

variable {r : Registry} {ctx : ConversionContext} {v : Value} {source target : TypeDescriptor}
  {text : String} {elements : List (Option Value)}

/-! ## Scalars -/

theorem stringToNumber_fits
    (hkind : (NumericKind.ofErasure? target.registry target.erasure).isSome = true) :
    ((stringToNumber r).run ctx (some (.string text)) source target).Fits := by
  dsimp only [stringToNumber, onText, onValue, Value.asText?]
  split
  · exact fits_pure none
  · split
    · rename_i hnone
      simp [hnone] at hkind
    · split
      · exact fits_pure _
      · exact Converter.invalid_fits _ _ _ _

theorem stringToBoolean_fits :
    ((stringToBoolean r).run ctx (some (.string text)) source target).Fits := by
  dsimp only [stringToBoolean, onText, onValue, Value.asText?]
  split
  · exact fits_pure none
  · exact fits_pure _

theorem stringToCharacter_fits :
    ((stringToCharacter r).run ctx (some (.string text)) source target).Fits := by
  dsimp only [stringToCharacter, onText, onValue, Value.asText?]
  by_cases hempty : text.isEmpty = true
  · rw [if_pos hempty]
    exact fits_pure none
  · rw [if_neg hempty]
    cases readInteger (.unsigned 32) (trimmed text).toList with
    | ok code =>
      dsimp only
      by_cases hvalid : code.toNat.isValidChar
      · rw [dif_pos hvalid]
        exact fits_pure _
      · rw [dif_neg hvalid]
        exact Converter.invalid_fits _ _ _ _
    | error _ =>
      dsimp only
      split
      · exact fits_pure _
      · exact Converter.invalid_fits _ _ _ _

theorem numberToNumber_fits (hnumber : (AnyNumber.ofValue? v).isSome = true)
    (hkind : (NumericKind.ofErasure? target.registry target.erasure).isSome = true) :
    ((numberToNumber r).run ctx (some v) source target).Fits := by
  rcases Option.isSome_iff_exists.mp hnumber with ⟨number, hnumber⟩
  rcases Option.isSome_iff_exists.mp hkind with ⟨kind, hkind⟩
  dsimp only [numberToNumber, onValue]
  rw [hnumber, hkind]
  dsimp only
  split
  · exact fits_pure _
  · exact Converter.invalid_fits _ _ _ _

theorem objectToString_fits :
    ((objectToString r).run ctx (some v) source target).Fits :=
  fits_pure _

theorem stringToEnum_fits (henum : target.registry.isEnum target.erasure = true) :
    ((stringToEnum r).run ctx (some (.string text)) source target).Fits := by
  have hclass : ∃ c, (target.erasure.asClass?.filter
      fun c => target.registry.isEnum (.ofClass c)) = some c := by
    have hplain : target.erasure.isArray = false := by
      rw [Registry.isEnum, Registry.hasKind] at henum
      simpa using (Bool.and_eq_true_iff.mp henum).1
    rcases Registry.exists_eq_ofClass hplain with ⟨c, hc⟩
    rw [hc] at henum ⊢
    exact ⟨c, by simp [henum]⟩
  rcases hclass with ⟨c, hc⟩
  dsimp only [stringToEnum, onText, onValue, Value.asText?]
  split
  · exact fits_pure none
  · rw [hc]
    dsimp only
    split
    · exact fits_pure _
    · exact fits_throw not_false

/-! ## Elements -/

/-- The service does not fail by a misfit where it converts elements to the type. -/
def FitsEach (ctx : ConversionContext) (elements : List (Option Value))
    (element : TypeDescriptor) : Prop :=
  ∀ x ∈ elements, (ctx.convert x none element).Fits

/-- The elements of a target are there to be converted to, unless the walk to them is cut off. -/
theorem targetElement_fits (h : target.element? ctx.limit ≠ some none) :
    (targetElement ctx target).Fits := by
  refine (fits_ofWalk _).bind fun found hfound => ?_
  cases found with
  | none => exact absurd ((gives_ofWalk_iff ..).mp hfound) h
  | some element => exact fits_pure element

theorem createCollection_fits (r : Registry) (e : Erasure) (elements : List (Option Value)) :
    (Attempt.ofExcept (r.createCollection e elements)).Fits := by
  have hclass : ∀ fault, r.collectionClass e = .error fault → ¬fault.IsMisfit := by
    intro fault h
    have hunsupported : fault = .unsupportedCollection (r.erasureName e) := by
      simp only [Registry.collectionClass] at h
      grind
    rw [hunsupported]
    exact not_false
  intro fault h
  have h : r.createCollection e elements = .error fault := by
    simpa [Attempt.ofExcept, ExceptT.run_mk] using h
  cases hc : r.collectionClass e with
  | error fault' =>
    obtain rfl : fault' = fault := by
      simpa [Registry.createCollection, hc, bind, Except.bind] using h
    exact hclass fault' hc
  | ok c =>
    simp only [Registry.createCollection, hc, bind, Except.bind] at h
    split at h <;> simp [pure, Except.pure] at h

theorem joinElements_fits
    (hconvert : FitsEach ctx elements (.ofErasure ctx.registry (stringClass ctx.registry))) :
    (joinElements ctx elements).Fits := by
  refine (fits_mapM fun x hx => ?_).bind fun parts _ => fits_pure _
  cases x with
  | none => exact fits_pure "null"
  | some value =>
    refine (hconvert _ hx).bind fun found _ => ?_
    split <;> exact fits_pure _

theorem arrayToString_fits {component : Erasure}
    (hconvert : FitsEach ctx elements (.ofErasure ctx.registry (stringClass ctx.registry))) :
    ((arrayToString r).run ctx (some (.array component elements)) source target).Fits :=
  (joinElements_fits hconvert).bind fun _ _ => fits_pure _

theorem collectionToString_fits {c : ClassId}
    (hconvert : FitsEach ctx elements (.ofErasure ctx.registry (stringClass ctx.registry))) :
    ((collectionToString r).run ctx (some (.collection c elements)) source target).Fits :=
  (joinElements_fits hconvert).bind fun _ _ => fits_pure _

section IntoElements

variable (helement : target.element? ctx.limit ≠ some none)

include helement

theorem stringToArray_fits
    (hconvert : ∀ element, target.HasElement element → ∀ texts : List String,
      FitsEach ctx (texts.map fun text => some (.string text)) element) :
    ((stringToArray r).run ctx (some (.string text)) source target).Fits := by
  refine (targetElement_fits helement).bind fun element h => ?_
  have hfits := hconvert element ⟨_, targetElement_gives_iff.mp h⟩ (splitElements ctx text)
  exact (fits_mapM hfits).bind fun _ _ => fits_pure _

theorem stringToCollection_fits
    (hconvert : ∀ element, target.HasElement element → ∀ texts : List String,
      FitsEach ctx (texts.map fun text => some (.string text)) element) :
    ((stringToCollection r).run ctx (some (.string text)) source target).Fits := by
  refine (targetElement_fits helement).bind fun element h => ?_
  have hfits := hconvert element ⟨_, targetElement_gives_iff.mp h⟩ (splitElements ctx text)
  refine (fits_ofWalk _).bind fun definite _ => ?_
  have hcreate : ∀ built, (do
      return some (← Attempt.ofExcept (ctx.registry.createCollection target.erasure built)) :
        Attempt (Option Value)).Fits :=
    fun built => (createCollection_fits _ _ _).bind fun _ _ => fits_pure _
  cases definite with
  | true => exact (fits_mapM hfits).bind fun built _ => hcreate built
  | false => exact (fits_pure _).bind fun built _ => hcreate built

theorem arrayToCollection_fits {component : Erasure}
    (hconvert : ∀ element, target.HasElement element → FitsEach ctx elements element) :
    ((arrayToCollection r).run ctx (some (.array component elements)) source target).Fits := by
  refine (targetElement_fits helement).bind fun element h => ?_
  refine (fits_mapM (hconvert element ⟨_, targetElement_gives_iff.mp h⟩)).bind fun _ _ => ?_
  exact (createCollection_fits _ _ _).bind fun _ _ => fits_pure _

theorem collectionToArray_fits {c : ClassId}
    (hconvert : ∀ element, target.HasElement element → FitsEach ctx elements element) :
    ((collectionToArray r).run ctx (some (.collection c elements)) source target).Fits := by
  refine (targetElement_fits helement).bind fun element h => ?_
  refine (fits_mapM (hconvert element ⟨_, targetElement_gives_iff.mp h⟩)).bind fun _ _ => ?_
  exact fits_pure _

end IntoElements

end Builtin

end TypeConversion
