import TypeConversion.Proofs.Conversion.Limits
import Mathlib.Data.List.DropRight

/-!
# What is converted to null

Three things are converted to null by a service with built-in converters: null itself, a value that
no converter is found for, and a string that its converter has nothing to give for.  The last are
blank strings where numbers, truth values and enum constants are asked for, and the empty one where
characters are; all other converters give something or fail.  Elements are converted one by one, and
so the nulls among the converted elements are exactly those that stand for one of the three.

**Results**

* `Builtin.run_gives_none_iff`: which strings the built-in converters pass over;
* `converts_none_iff`: what is converted to null;
* `convertsEach_of_gives`: elements are converted one by one.
-/

namespace TypeConversion

open Attempt Walk

/-- Nothing is left of a text without the blanks at its ends exactly if it has only blanks. -/
theorem isEmpty_trimmed (text : String) : (trimmed text).isEmpty = isAllBlank text := by
  have htrim : trimBlanks text.toList = [] ↔ ∀ c ∈ text.toList, isBlank c = true := by
    rw [trimBlanks, skipBlanks_eq_dropWhile, skipBlanks_eq_dropWhile]
    change List.rdropWhile isBlank (text.toList.dropWhile isBlank) = [] ↔ _
    rw [List.rdropWhile_eq_nil_iff, ← List.dropWhile_eq_nil_iff, List.dropWhile_idempotent,
      List.dropWhile_eq_nil_iff]
  rw [Bool.eq_iff_iff, trimmed, isAllBlank, List.all_eq_true, ← htrim, String.isEmpty_iff,
    ← String.toList_inj, String.toList_ofList]
  rfl

namespace Builtin

/--
Whether the built-in converter of a name gives null for a text.  Names tell the built-in converters
apart.
-/
def passesOver (name text : String) : Bool :=
  match name with
  | "StringToNumber" | "StringToBoolean" | "StringToEnum" => isAllBlank text
  | "StringToCharacter" => text.isEmpty
  | _ => false

variable {r : Registry} {ctx : ConversionContext} {v : Value} {source target : TypeDescriptor}

theorem not_gives_none (value : Value) : ¬(pure (some value) : Attempt (Option Value)).Gives none := by
  simp [gives_pure_iff]

/-- What gives something or fails gives null only where a blank text is tested for before. -/
theorem gives_none_iff_isAllBlank {text : String} {x : Attempt (Option Value)}
    (hx : ¬x.Gives none) :
    (if (trimmed text).isEmpty then pure none else x : Attempt (Option Value)).Gives none ↔
      isAllBlank text = true := by
  rw [isEmpty_trimmed]
  cases isAllBlank text with
  | true => simp [gives_pure_iff]
  | false => simpa using hx

theorem stringToNumber_gives_none_iff :
    ((stringToNumber r).run ctx (some v) source target).Gives none ↔
      ∃ text, v = .string text ∧ isAllBlank text = true := by
  simp only [stringToNumber, onText_gives_iff]
  refine exists_congr fun text => and_congr_right fun _ => ?_
  refine gives_none_iff_isAllBlank ?_
  split
  · exact Converter.not_gives_mismatch _ _ _ _ _
  · split
    · exact not_gives_none _
    · exact Converter.not_gives_invalid _ _ _ _ _

theorem stringToBoolean_gives_none_iff :
    ((stringToBoolean r).run ctx (some v) source target).Gives none ↔
      ∃ text, v = .string text ∧ isAllBlank text = true := by
  simp only [stringToBoolean, onText_gives_iff]
  refine exists_congr fun text => and_congr_right fun _ => ?_
  exact gives_none_iff_isAllBlank (not_gives_none _)

theorem stringToEnum_gives_none_iff :
    ((stringToEnum r).run ctx (some v) source target).Gives none ↔
      ∃ text, v = .string text ∧ isAllBlank text = true := by
  simp only [stringToEnum, onText_gives_iff]
  refine exists_congr fun text => and_congr_right fun _ => ?_
  refine gives_none_iff_isAllBlank ?_
  split
  · exact Converter.not_gives_mismatch _ _ _ _ _
  · split
    · exact not_gives_none _
    · exact not_gives_throw _ _

theorem stringToCharacter_gives_none_iff :
    ((stringToCharacter r).run ctx (some v) source target).Gives none ↔
      ∃ text, v = .string text ∧ text.isEmpty = true := by
  rw [stringToCharacter]
  dsimp only
  rw [onText_gives_iff]
  refine exists_congr fun text => and_congr_right fun _ => ?_
  cases text.isEmpty with
  | true => simp [gives_pure_iff]
  | false =>
    rw [if_neg Bool.false_ne_true]
    refine iff_of_false ?_ Bool.false_ne_true
    cases readInteger (.unsigned 32) (trimmed text).toList with
    | ok code =>
      dsimp only
      by_cases hvalid : code.toNat.isValidChar
      · rw [dif_pos hvalid]
        exact not_gives_none _
      · rw [dif_neg hvalid]
        exact Converter.not_gives_invalid _ _ _ _ _
    | error _ =>
      dsimp only
      split
      · exact not_gives_none _
      · exact Converter.not_gives_invalid _ _ _ _ _

theorem numberToNumber_not_gives_none :
    ¬((numberToNumber r).run ctx (some v) source target).Gives none := by
  simp only [numberToNumber, onValue]
  split
  · split
    · exact not_gives_none _
    · exact Converter.not_gives_invalid _ _ _ _ _
  · exact Converter.not_gives_mismatch _ _ _ _ _

theorem arrayToString_not_gives_none :
    ¬((arrayToString r).run ctx (some v) source target).Gives none := by
  simp only [arrayToString, onValue]
  split
  · exact not_gives_bind fun _ => not_gives_none _
  · exact Converter.not_gives_mismatch _ _ _ _ _

theorem collectionToString_not_gives_none :
    ¬((collectionToString r).run ctx (some v) source target).Gives none := by
  simp only [collectionToString, onValue]
  split
  · exact not_gives_bind fun _ => not_gives_none _
  · exact Converter.not_gives_mismatch _ _ _ _ _

theorem stringToCollection_not_gives_none :
    ¬((stringToCollection r).run ctx (some v) source target).Gives none := by
  simp only [stringToCollection, onText_gives_iff]
  rintro ⟨text, -, h⟩
  refine not_gives_bind (fun element => not_gives_bind fun definite => ?_) h
  cases definite with
  | true => exact not_gives_bind fun _ => not_gives_bind fun _ => not_gives_none _
  | false => exact not_gives_bind fun _ => not_gives_bind fun _ => not_gives_none _

/-- A built-in converter gives null for the strings that it passes over, and for nothing else. -/
theorem run_gives_none_iff {c : Converter} (hc : c ∈ defaults r) :
    (c.run ctx (some v) source target).Gives none ↔
      ∃ text, v = .string text ∧ passesOver c.name text = true := by
  have hnever : ∀ {d : Converter}, (∀ text, passesOver d.name text = false) →
      ¬(d.run ctx (some v) source target).Gives none →
      ((d.run ctx (some v) source target).Gives none ↔
        ∃ text, v = .string text ∧ passesOver d.name text = true) := by
    intro d hname hrun
    refine iff_of_false hrun ?_
    rintro ⟨text, -, htext⟩
    exact Bool.false_ne_true ((hname text).symm.trans htext)
  simp only [defaults, List.mem_cons, List.not_mem_nil, or_false] at hc
  -- one case for each converter, in the order in which they are registered
  rcases hc with rfl | rfl | rfl | rfl | rfl | rfl | rfl | rfl | rfl | rfl | rfl | rfl
  · exact stringToNumber_gives_none_iff
  · exact stringToBoolean_gives_none_iff
  · exact stringToCharacter_gives_none_iff
  · exact hnever (fun _ => rfl) numberToNumber_not_gives_none
  · exact hnever (fun _ => rfl) (by simp [objectToString, gives_pure_iff])
  · exact stringToEnum_gives_none_iff
  · exact hnever (fun _ => rfl) (by simp [stringToArray_gives_iff])
  · exact hnever (fun _ => rfl) arrayToString_not_gives_none
  · exact hnever (fun _ => rfl) stringToCollection_not_gives_none
  · exact hnever (fun _ => rfl) collectionToString_not_gives_none
  · exact hnever (fun _ => rfl) (by simp [arrayToCollection_gives_iff])
  · exact hnever (fun _ => rfl) (by simp [collectionToArray_gives_iff])

end Builtin

namespace ConversionService

variable {s : ConversionService} {target : TypeDescriptor}

/-- What a service converts a value to, null included, wherever it is not cut off. -/
def Converts (s : ConversionService) (target : TypeDescriptor) (x y : Option Value) : Prop :=
  Finds (fun limit => (s.convert limit x target).run) (.ok y)

/-- The converter that is found for a value, if there is one. -/
def FindsConverter (s : ConversionService) (v : Value) (target : TypeDescriptor)
    (found : Option Converter) : Prop :=
  Finds (fun limit => s.getConverter limit (s.descriptor (v.erasure s.registry)) target) found

/--
What stands for nothing where a type is asked for: null, a value that no converter is found for, and
a string that its converter passes over.
-/
inductive IsLeftOut (s : ConversionService) (target : TypeDescriptor) : Option Value → Prop
  | null : IsLeftOut s target none
  | unconvertible {v : Value} (h : s.FindsConverter v target none) : IsLeftOut s target (some v)
  | passedOver {text : String} {c : Converter} (h : s.FindsConverter (.string text) target (some c))
      (htext : Builtin.passesOver c.name text = true) : IsLeftOut s target (some (.string text))

/-- Elements converted one by one, in order, with null for those that are left out. -/
def ConvertsEach (s : ConversionService) (element : TypeDescriptor) :
    List (Option Value) → List (Option Value) → Prop :=
  List.Forall₂ fun x y => s.Converts element x y ∧ (y = none ↔ s.IsLeftOut element x)

section

variable (hs : s.OnlyBuiltin)

include hs

theorem Converts.unique {x y y' : Option Value} (h : s.Converts target x y)
    (h' : s.Converts target x y') : y = y' :=
  Except.ok.inj (Finds.unique (convert_steady hs x target) h h')

theorem FindsConverter.unique {v : Value} {c c' : Option Converter}
    (h : s.FindsConverter v target c) (h' : s.FindsConverter v target c') : c = c' :=
  Finds.unique (getConverter_steady hs _ _) h h'

/-- Null stands exactly for what is left out. -/
theorem converts_none_iff (x : Option Value) :
    s.Converts target x none ↔ s.IsLeftOut target x := by
  constructor
  · rintro ⟨limit, h⟩
    cases x with
    | none => exact .null
    | some v =>
      rcases (gives_bind_iff ..).mp (show Gives _ none from h) with ⟨chosen, hchosen, hrun⟩
      rw [gives_ofWalk_iff] at hchosen
      cases chosen with
      | none => exact .unconvertible ⟨limit, hchosen⟩
      | some c =>
        rcases chosen_of_chooseConverter hs (registry_contextAt ..) hchosen with ⟨hc, -⟩ | ⟨rfl, -⟩
        · rcases (Builtin.run_gives_none_iff hc).mp hrun with ⟨text, rfl, htext⟩
          exact .passedOver ⟨limit, hchosen⟩ htext
        · simp [Converter.passThrough, gives_pure_iff] at hrun
  · rintro (_ | ⟨limit, h⟩ | @⟨text, c, ⟨limit, h⟩, htext⟩)
    · exact ⟨0, (gives_pure_iff ..).mpr rfl⟩
    · exact ⟨limit, (gives_bind_iff ..).mpr ⟨none, (gives_ofWalk_iff ..).mpr h,
        (gives_pure_iff ..).mpr rfl⟩⟩
    · refine ⟨limit, (gives_bind_iff ..).mpr ⟨some c, (gives_ofWalk_iff ..).mpr h, ?_⟩⟩
      rcases chosen_of_chooseConverter hs (registry_contextAt ..) h with ⟨hc, -⟩ | ⟨rfl, -⟩
      · exact (Builtin.run_gives_none_iff hc).mpr ⟨text, rfl, htext⟩
      · exact absurd htext Bool.false_ne_true

/-- What elements are converted to one by one. -/
theorem convertsEach_of_gives {element : TypeDescriptor} {limit : Nat}
    {xs ys : List (Option Value)}
    (h : (Builtin.convertElements (s.contextAt limit limit) element xs).Gives ys) :
    s.ConvertsEach element xs ys := by
  rw [Builtin.convertElements, gives_mapM_iff] at h
  refine h.imp fun x y hy => ?_
  have hconverts : s.Converts element x y :=
    ⟨limit, hy.extends ((contextAt_extends hs le_rfl (Nat.le_succ limit)).convert x none element)⟩
  refine ⟨hconverts, ?_⟩
  constructor
  · rintro rfl
    exact (converts_none_iff hs x).mp hconverts
  · intro hout
    exact hconverts.unique hs ((converts_none_iff hs x).mpr hout)

end

end ConversionService

end TypeConversion
