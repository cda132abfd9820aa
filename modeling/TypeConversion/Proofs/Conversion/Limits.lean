import TypeConversion.Proofs.Conversion.Soundness
import TypeConversion.Proofs.Node.Display

/-!
# Conversions without their limits

A conversion that was not cut off has the same outcome under every larger limit: it gives the same
or fails alike.  A context *extends* another if it answers all that the other answers, in the same
way, and may answer more.  Every built-in converter is steady: in a context that extends another it
takes the types that it took there, and has the outcome that it had there.  A service with only
these offers, within a larger limit and for deeper calls, a context that extends the smaller one.

**Results**

* `Builtin.steady_of_mem_defaults`: the built-in converters are steady;
* `contextAt_extends`: a larger limit and deeper calls extend a context;
* `convert_steady`, `getConverter_steady`: so they do not change what is found.
-/

namespace TypeConversion

open Walk

/-! ## Attempts -/

namespace Attempt

variable {α β : Type}

/-- The second attempt has the outcome of the first, unless that one was cut off. -/
def Extends (x y : Attempt α) : Prop := Walk.Extends x.run y.run

@[simp] theorem Extends.refl (x : Attempt α) : x.Extends x := Walk.Extends.refl _

theorem Extends.ofWalk {w w' : Walk α} (h : Walk.Extends w w') :
    (ofWalk w).Extends (ofWalk w') := by
  intro outcome houtcome
  rcases Option.map_eq_some_iff.mp houtcome with ⟨a, ha, rfl⟩
  exact Option.map_eq_some_iff.mpr ⟨a, h a ha, rfl⟩

theorem Extends.bind {x y : Attempt α} {f g : α → Attempt β} (h : x.Extends y)
    (hf : ∀ a, (f a).Extends (g a)) : (x >>= f).Extends (y >>= g) := by
  refine Walk.Extends.bind h fun outcome => ?_
  cases outcome with
  | ok a => exact hf a
  | error e => exact .refl _

theorem Extends.mapM {f g : α → Attempt β} (h : ∀ a, (f a).Extends (g a)) (as : List α) :
    (as.mapM f).Extends (as.mapM g) := by
  induction as with
  | nil => exact .refl _
  | cons a rest ih =>
    rw [List.mapM_cons, List.mapM_cons]
    exact (h a).bind fun b => ih.bind fun bs => .refl _

theorem Gives.extends {x y : Attempt α} {a : α} (hx : x.Gives a) (h : x.Extends y) : y.Gives a :=
  h _ hx

end Attempt

open Attempt

/-! ## Types -/

namespace TypeDescriptor

theorem isDefinite_steady (d : TypeDescriptor) : Steady fun limit => d.isDefinite limit :=
  (Node.resolveOption_steady d.registry d.node).bind fun _ => .const _

theorem display_steady (d : TypeDescriptor) : Steady fun limit => d.display limit := by
  refine (isDefinite_steady d).bind fun definite => ?_
  cases definite with
  | true => exact (Node.display_steady d.registry d.node).bind fun _ => .const _
  | false => exact .const _

end TypeDescriptor

/-! ## Contexts and converters -/

/-- The second context answers what the first answers, and may go on where that was cut off. -/
structure ConversionContext.Extends (ctx more : ConversionContext) : Prop where
  registry : more.registry = ctx.registry
  config : more.config = ctx.config
  limit : ctx.limit ≤ more.limit
  canConvert : ∀ source target,
    Walk.Extends (ctx.canConvert source target) (more.canConvert source target)
  convert : ∀ value source target,
    (ctx.convert value source target).Extends (more.convert value source target)

/-- A converter that takes the same types, with the same outcome, in every context that extends. -/
structure Converter.Steady (c : Converter) : Prop where
  accepts : ∀ {ctx more : ConversionContext}, ctx.Extends more → ∀ source target,
    Walk.Extends (c.accepts ctx source target) (c.accepts more source target)
  run : ∀ {ctx more : ConversionContext}, ctx.Extends more → ∀ value source target,
    (c.run ctx value source target).Extends (c.run more value source target)

section

variable {ctx more : ConversionContext} (h : ctx.Extends more)

include h

theorem Converter.mismatch_extends {α : Type} (name : String) (found : Value)
    (target : TypeDescriptor) :
    (mismatch ctx name found target : Attempt α).Extends (mismatch more name found target) :=
  (Extends.ofWalk (target.display_steady _ _ h.limit)).bind fun _ => .refl _

theorem Converter.invalid_extends {α : Type} (value : String) (target : TypeDescriptor)
    (reason : String) :
    (invalid ctx value target reason : Attempt α).Extends (invalid more value target reason) :=
  (Extends.ofWalk (target.display_steady _ _ h.limit)).bind fun _ => .refl _

end

theorem Converter.steady_passThrough : Converter.passThrough.Steady where
  accepts _ _ _ := .refl _
  run _ _ _ _ := .refl _

namespace Builtin

/-! ## The built-in converters -/

section

variable {ctx more : ConversionContext} (h : ctx.Extends more)

theorem onValue_extends (value : Option Value) {f g : Value → Attempt (Option Value)}
    (hf : ∀ v, (f v).Extends (g v)) : (onValue value f).Extends (onValue value g) := by
  cases value with
  | none => exact .refl _
  | some v => exact hf v

include h

theorem onText_extends (name : String) (value : Option Value) (target : TypeDescriptor)
    {f g : Value → String → Attempt (Option Value)} (hf : ∀ v text, (f v text).Extends (g v text)) :
    (onText ctx name value target f).Extends (onText more name value target g) := by
  refine onValue_extends value fun v => ?_
  cases v.asText? with
  | some text => exact hf v text
  | none => exact Converter.mismatch_extends h name v target

theorem canConvertElements_extends (source target : Option TypeDescriptor) :
    Walk.Extends (canConvertElements ctx source target) (canConvertElements more source target) := by
  cases source with
  | none => exact .refl _
  | some source =>
    cases target with
    | none => exact .refl _
    | some target =>
      simp only [canConvertElements, h.registry]
      exact (h.canConvert _ _).bind fun _ => .refl _

theorem wholeToElements_extends (source target : TypeDescriptor) :
    Walk.Extends (wholeToElements ctx source target) (wholeToElements more source target) :=
  (target.element?_steady _ _ h.limit).bind fun _ => canConvertElements_extends h _ _

theorem elementsToElements_extends (source target : TypeDescriptor) :
    Walk.Extends (elementsToElements ctx source target) (elementsToElements more source target) :=
  (source.element?_steady _ _ h.limit).bind fun _ =>
    (target.element?_steady _ _ h.limit).bind fun _ => canConvertElements_extends h _ _

theorem splitElements_eq_of_extends (text : String) :
    splitElements more text = splitElements ctx text := by
  rw [splitElements, splitElements, h.config]

theorem targetElement_extends (target : TypeDescriptor) :
    (targetElement ctx target).Extends (targetElement more target) := by
  refine (Extends.ofWalk (target.element?_steady _ _ h.limit)).bind fun found => ?_
  cases found with
  | some element => exact .refl _
  | none => exact (Extends.ofWalk (target.display_steady _ _ h.limit)).bind fun _ => .refl _

theorem convertElements_extends (target : TypeDescriptor) (elements : List (Option Value)) :
    (convertElements ctx target elements).Extends (convertElements more target elements) :=
  .mapM (fun element => h.convert element none target) elements

theorem elementString_extends (element : Option Value) :
    (elementString ctx element).Extends (elementString more element) := by
  cases element with
  | none => exact .refl _
  | some value =>
    simp only [elementString, h.registry]
    exact (h.convert _ _ _).bind fun _ => .refl _

theorem joinElements_extends (elements : List (Option Value)) :
    (joinElements ctx elements).Extends (joinElements more elements) := by
  simp only [joinElements, h.config]
  exact (Extends.mapM (elementString_extends h) elements).bind fun _ => .refl _

end

variable (r : Registry)

theorem steady_stringToNumber : (stringToNumber r).Steady where
  accepts _ _ _ := .refl _
  run h value _ target := by
    refine onText_extends h _ value target fun v text => ?_
    dsimp only
    split
    · exact .refl _
    · split
      · exact Converter.mismatch_extends h _ v target
      · split
        · exact .refl _
        · exact Converter.invalid_extends h _ target _

theorem steady_stringToBoolean : (stringToBoolean r).Steady where
  accepts _ _ _ := .refl _
  run h value _ target := onText_extends h _ value target fun _ _ => .refl _

theorem steady_stringToCharacter : (stringToCharacter r).Steady where
  accepts _ _ _ := .refl _
  run h value _ target := by
    refine onText_extends h _ value target fun v text => ?_
    by_cases hempty : text.isEmpty = true
    · rw [if_pos hempty, if_pos hempty]
      exact .refl _
    · rw [if_neg hempty, if_neg hempty]
      cases readInteger (.unsigned 32) (trimmed text).toList with
      | ok code =>
        dsimp only
        by_cases hvalid : code.toNat.isValidChar
        · rw [dif_pos hvalid, dif_pos hvalid]
          exact .refl _
        · rw [dif_neg hvalid, dif_neg hvalid]
          exact Converter.invalid_extends h _ target _
      | error _ =>
        dsimp only
        split
        · exact .refl _
        · exact Converter.invalid_extends h _ target _

theorem steady_numberToNumber : (numberToNumber r).Steady where
  accepts _ _ _ := .refl _
  run h value _ target := by
    refine onValue_extends value fun v => ?_
    split
    · split
      · exact .refl _
      · exact Converter.invalid_extends h _ target _
    · exact Converter.mismatch_extends h _ v target

theorem steady_objectToString : (objectToString r).Steady where
  accepts _ _ _ := .refl _
  run _ _ _ _ := .refl _

theorem steady_stringToEnum : (stringToEnum r).Steady where
  accepts _ _ _ := .refl _
  run h value _ target := by
    refine onText_extends h _ value target fun v text => ?_
    dsimp only
    split
    · exact .refl _
    · split
      · exact Converter.mismatch_extends h _ v target
      · exact .refl _

theorem steady_stringToArray : (stringToArray r).Steady where
  accepts h := wholeToElements_extends h
  run h value _ target := by
    refine onText_extends h _ value target fun v text => ?_
    rw [splitElements_eq_of_extends h]
    exact (targetElement_extends h target).bind fun element =>
      (convertElements_extends h element _).bind fun _ => .refl _

theorem steady_arrayToString : (arrayToString r).Steady where
  accepts _ _ _ := .refl _
  run h value _ target := by
    refine onValue_extends value fun v => ?_
    split
    · exact (joinElements_extends h _).bind fun _ => .refl _
    · exact Converter.mismatch_extends h _ _ target

theorem steady_stringToCollection : (stringToCollection r).Steady where
  accepts h := wholeToElements_extends h
  run h value _ target := by
    refine onText_extends h _ value target fun v text => ?_
    rw [splitElements_eq_of_extends h, h.registry]
    refine (targetElement_extends h target).bind fun element => ?_
    refine (Extends.ofWalk (element.isDefinite_steady _ _ h.limit)).bind fun definite => ?_
    cases definite with
    | true => exact (convertElements_extends h element _).bind fun _ => .refl _
    | false => exact .refl _

theorem steady_collectionToString : (collectionToString r).Steady where
  accepts _ _ _ := .refl _
  run h value _ target := by
    refine onValue_extends value fun v => ?_
    split
    · exact (joinElements_extends h _).bind fun _ => .refl _
    · exact Converter.mismatch_extends h _ _ target

theorem steady_arrayToCollection : (arrayToCollection r).Steady where
  accepts h := elementsToElements_extends h
  run h value _ target := by
    refine onValue_extends value fun v => ?_
    split
    · rw [h.registry]
      exact (targetElement_extends h target).bind fun element =>
        (convertElements_extends h element _).bind fun _ => .refl _
    · exact Converter.mismatch_extends h _ _ target

theorem steady_collectionToArray : (collectionToArray r).Steady where
  accepts h := elementsToElements_extends h
  run h value _ target := by
    refine onValue_extends value fun v => ?_
    split
    · exact (targetElement_extends h target).bind fun element =>
        (convertElements_extends h element _).bind fun _ => .refl _
    · exact Converter.mismatch_extends h _ _ target

variable {r}

/-- Every built-in converter is steady. -/
theorem steady_of_mem_defaults {c : Converter} (hc : c ∈ defaults r) : c.Steady := by
  simp only [defaults, List.mem_cons, List.not_mem_nil, or_false] at hc
  -- one case for each converter, in the order in which they are registered
  rcases hc with rfl | rfl | rfl | rfl | rfl | rfl | rfl | rfl | rfl | rfl | rfl | rfl
  · exact steady_stringToNumber r
  · exact steady_stringToBoolean r
  · exact steady_stringToCharacter r
  · exact steady_numberToNumber r
  · exact steady_objectToString r
  · exact steady_stringToEnum r
  · exact steady_stringToArray r
  · exact steady_arrayToString r
  · exact steady_stringToCollection r
  · exact steady_collectionToString r
  · exact steady_arrayToCollection r
  · exact steady_collectionToArray r

end Builtin

/-! ## Services -/

theorem Converters.firstAccepting_extends {ctx more : ConversionContext} (h : ctx.Extends more)
    (source target : TypeDescriptor) {cs : List Converter} (hcs : ∀ c ∈ cs, c.Steady) :
    Walk.Extends (firstAccepting ctx source target cs) (firstAccepting more source target cs) := by
  induction cs with
  | nil => exact .refl _
  | cons c rest ih =>
    rcases List.forall_mem_cons.mp hcs with ⟨hc, hrest⟩
    rw [firstAccepting, firstAccepting]
    refine (hc.accepts h source target).bind fun accepted => ?_
    cases accepted with
    | true => exact .refl _
    | false => exact ih hrest

namespace ConversionService

variable {s : ConversionService} (hs : s.OnlyBuiltin)

section

variable {ctx more : ConversionContext} (h : ctx.Extends more) (hctx : ctx.registry = s.registry)

include hs h hctx

theorem chooseConverter_extends (source target : TypeDescriptor) :
    Walk.Extends (s.chooseConverter ctx source target) (s.chooseConverter more source target) := by
  have hfind : Walk.Extends (s.converters.find ctx source target)
      (s.converters.find more source target) := by
    rw [Converters.find, Converters.find, h.registry, hctx, hs.global, List.append_nil]
    refine Converters.firstAccepting_extends h source target fun c hc => ?_
    exact Builtin.steady_of_mem_defaults (exists_pair_of_mem_candidates hs hc).1
  exact hfind.bind fun _ => .refl _

theorem canConvertIn_extends (source : Option TypeDescriptor) (target : TypeDescriptor) :
    Walk.Extends (s.canConvertIn ctx source target) (s.canConvertIn more source target) := by
  cases source with
  | none => exact .refl _
  | some source => exact (chooseConverter_extends hs h hctx source target).bind fun _ => .refl _

theorem convertIn_extends (value : Option Value) (source : Option TypeDescriptor)
    (target : TypeDescriptor) :
    (s.convertIn ctx value source target).Extends (s.convertIn more value source target) := by
  cases value with
  | none => exact .refl _
  | some v =>
    intro outcome houtcome
    rcases Option.bind_eq_some_iff.mp houtcome with ⟨chosen, hchosen, hrun⟩
    rcases Option.map_eq_some_iff.mp hchosen with ⟨c, hc, rfl⟩
    refine Option.bind_eq_some_iff.mpr ⟨.ok c, Option.map_eq_some_iff.mpr
      ⟨c, chooseConverter_extends hs h hctx _ _ c hc, rfl⟩, ?_⟩
    cases c with
    | none => exact hrun
    | some c =>
      have hsteady : c.Steady := by
        rcases chosen_of_chooseConverter hs hctx hc with ⟨hbuiltin, -⟩ | ⟨rfl, -⟩
        · exact Builtin.steady_of_mem_defaults hbuiltin
        · exact Converter.steady_passThrough
      exact hsteady.run h _ _ _ _ hrun

end

include hs

/-- A larger limit and deeper calls extend what a service offers to converters. -/
theorem contextAt_extends {limit more depth deeper : Nat} (hlimit : limit ≤ more)
    (hdepth : depth ≤ deeper) :
    (s.contextAt limit depth).Extends (s.contextAt more deeper) := by
  induction depth generalizing deeper with
  | zero =>
    exact
      { registry := by rw [registry_contextAt, registry_contextAt]
        config := by cases deeper <;> rfl
        limit := by rwa [limit_contextAt, limit_contextAt]
        canConvert := fun _ _ => .of_none _
        convert := fun _ _ _ => Walk.Extends.of_none _ }
  | succ depth ih =>
    obtain ⟨deeper, rfl⟩ : ∃ k, deeper = k + 1 := ⟨deeper - 1, by omega⟩
    have hcalls := ih (Nat.le_of_succ_le_succ hdepth)
    exact
      { registry := rfl
        config := rfl
        limit := hlimit
        canConvert := canConvertIn_extends hs hcalls (registry_contextAt ..)
        convert := convertIn_extends hs hcalls (registry_contextAt ..) }

theorem getConverter_steady (source target : TypeDescriptor) :
    Steady fun limit => s.getConverter limit source target :=
  fun _ _ hle =>
    chooseConverter_extends hs (contextAt_extends hs hle hle) (registry_contextAt ..) source target

theorem convertWith_steady (value : Option Value) (source : Option TypeDescriptor)
    (target : TypeDescriptor) : Steady fun limit => (s.convertWith limit value source target).run :=
  fun _ _ hle =>
    convertIn_extends hs (contextAt_extends hs hle hle) (registry_contextAt ..) value source target

theorem convert_steady (value : Option Value) (target : TypeDescriptor) :
    Steady fun limit => (s.convert limit value target).run :=
  convertWith_steady hs value none target

end ConversionService

end TypeConversion
