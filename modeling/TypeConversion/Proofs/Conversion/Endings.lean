import TypeConversion.Proofs.Conversion.Elementwise
import TypeConversion.Proofs.Conversion.Descent

/-!
# Attempts that come to an end

An attempt ends if it has an outcome within some limit, which may be an error, and keeps it within
larger ones.  What converters do ends if the walks they go on end: whether the target has elements,
whether those are definite, and the text of the target, which is in the messages of most errors.
Beyond that it ends if their calls of the service end.

**Results**

* `Ends.bind`, `Ends.mapM`: attempts that are put together from attempts;
* `total_accepts`: the conditions of the built-in converters;
* `ends_run`: what the built-in converters do.
-/

namespace TypeConversion

open Walk Attempt Registry

namespace Attempt

variable {α β : Type}

/-- An attempt that has an outcome within some limit, and the same within larger ones. -/
def Ends (x : Nat → Attempt α) : Prop := Total fun limit => (x limit).run

theorem ends_of_run {x : Attempt α} {outcome : Except ConversionError α}
    (h : x.run = some outcome) : Ends fun _ => x := by
  rw [Ends, h]
  exact .const outcome

theorem ends_pure (a : α) : Ends fun _ => (pure a : Attempt α) := ends_of_run rfl

theorem ends_throw (e : ConversionError) : Ends fun _ => (throw e : Attempt α) := ends_of_run rfl

theorem ends_ofExcept (e : Except ConversionError α) : Ends fun _ => ofExcept e := ends_of_run rfl

theorem Ends.ofWalk {w : Nat → Walk α} (h : Total w) : Ends fun limit => ofWalk (w limit) := by
  have hrun : (fun limit => (Attempt.ofWalk (w limit)).run) =
      fun limit => w limit >>= fun a => some (.ok a) :=
    funext fun limit => Option.map_eq_bind
  rw [Ends, hrun]
  exact h.bind fun a => .const (Except.ok a)

/-- An attempt goes on with what is given before. -/
theorem Ends.bind {x : Nat → Attempt α} {f : α → Nat → Attempt β} (hx : Ends x)
    (hf : ∀ a limit, (x limit).Gives a → Ends (f a)) :
    Ends fun limit => x limit >>= fun a => f a limit := by
  refine Total.bind_of_finds hx fun outcome houtcome => ?_
  obtain ⟨limit, houtcome⟩ := houtcome
  cases outcome with
  | ok a => exact hf a limit houtcome
  | error e => exact .const (Except.error e)

theorem Ends.dite {p : Prop} [Decidable p] {x : p → Nat → Attempt α} {y : ¬p → Nat → Attempt α}
    (hx : ∀ h, Ends (x h)) (hy : ∀ h, Ends (y h)) :
    Ends fun limit => if h : p then x h limit else y h limit := by
  by_cases h : p
  · simpa only [dif_pos h] using hx h
  · simpa only [dif_neg h] using hy h

theorem Ends.ite {p : Prop} [Decidable p] {x y : Nat → Attempt α} (hx : Ends x) (hy : Ends y) :
    Ends fun limit => if p then x limit else y limit :=
  .dite (fun _ => hx) fun _ => hy

theorem Ends.mapM {f : α → Nat → Attempt β} {as : List α} (h : ∀ a ∈ as, Ends (f a)) :
    Ends fun limit => as.mapM fun a => f a limit := by
  induction as with
  | nil => exact ends_pure []
  | cons a rest ih =>
    obtain ⟨ha, hrest⟩ := List.forall_mem_cons.mp h
    simp only [List.mapM_cons]
    exact ha.bind fun b _ _ => (ih hrest).bind fun bs _ _ => ends_pure (b :: bs)

end Attempt

theorem TypeDescriptor.isDefinite_total {d : TypeDescriptor} (h : d.registry.Acyclic) :
    Total fun limit => d.isDefinite limit :=
  (Node.resolveOption_total h d.node).bind fun _ => .const _

namespace ConversionService

variable {s : ConversionService}

@[simp] theorem registry_context (s : ConversionService) (limit : Nat) :
    (s.context limit).registry = s.registry :=
  registry_contextAt ..

@[simp] theorem limit_context (s : ConversionService) (limit : Nat) :
    (s.context limit).limit = limit :=
  limit_contextAt ..

@[simp] theorem config_context (s : ConversionService) (limit : Nat) :
    (s.context limit).config = s.config :=
  config_contextAt ..

/-! ## Conditions -/

theorem total_canConvertElements {source target : Option TypeDescriptor}
    (h : ∀ a b, source = some a → target = some b →
      Total fun limit => (s.context limit).canConvert (some a) b) :
    Total fun limit => Builtin.canConvertElements (s.context limit) source target := by
  cases source with
  | none => exact .const true
  | some a =>
    cases target with
    | none => exact .const true
    | some b =>
      simp only [Builtin.canConvertElements, registry_context]
      exact (h a b rfl rfl).bind fun _ => .ite (.const _) (.const _)

section

variable {source target : TypeDescriptor} (hsource : source.registry.Acyclic)
  (htarget : target.registry.Acyclic)
  (hcalls : ∀ d element, d.registry.Acyclic → target.HasElement element →
    Total fun limit => (s.context limit).canConvert (some d) element)

include hsource htarget hcalls

theorem total_wholeToElements :
    Total fun limit => Builtin.wholeToElements (s.context limit) source target := by
  simp only [Builtin.wholeToElements, limit_context]
  refine (TypeDescriptor.element?_total htarget).bind_of_finds fun found hfound => ?_
  refine total_canConvertElements ?_
  rintro _ element ⟨⟩ rfl
  exact hcalls source element hsource hfound

theorem total_elementsToElements :
    Total fun limit => Builtin.elementsToElements (s.context limit) source target := by
  simp only [Builtin.elementsToElements, limit_context]
  refine (TypeDescriptor.element?_total hsource).bind_of_finds fun ours hours => ?_
  refine (TypeDescriptor.element?_total htarget).bind_of_finds fun theirs htheirs => ?_
  refine total_canConvertElements ?_
  rintro d element rfl rfl
  have hours : source.HasElement d := hours
  have hregistry := hours.cases.1
  exact hcalls d element (hregistry ▸ hsource) htheirs

/-- A built-in converter can tell whether it takes types if the service can tell for elements. -/
theorem total_accepts {c : Converter} (hc : c ∈ Builtin.defaults s.registry) :
    Total fun limit => c.accepts (s.context limit) source target := by
  simp only [Builtin.defaults, List.mem_cons, List.not_mem_nil, or_false] at hc
  -- one case for each converter, in the order in which they are registered
  rcases hc with rfl | rfl | rfl | rfl | rfl | rfl | rfl | rfl | rfl | rfl | rfl | rfl
  · exact .const true
  · exact .const true
  · exact .const true
  · simp only [Converter.accepts, Builtin.numberToNumber]
    split <;> exact .const _
  · exact .const true
  · exact .const true
  · exact total_wholeToElements hsource htarget hcalls
  · exact .const true
  · exact total_wholeToElements hsource htarget hcalls
  · exact .const true
  · exact total_elementsToElements hsource htarget hcalls
  · exact total_elementsToElements hsource htarget hcalls

end

/-! ## Conversions of scalars -/

section

variable {v : Value} {source target : TypeDescriptor}
  (htext : Total fun limit => target.display limit)

include htext

theorem ends_mismatch {α : Type} (name : String) :
    Ends fun limit => (Converter.mismatch (s.context limit) name v target : Attempt α) := by
  simp only [Converter.mismatch, limit_context]
  exact (Ends.ofWalk htext).bind fun _ _ _ => ends_throw _

theorem ends_invalid {α : Type} (text reason : String) :
    Ends fun limit => (Converter.invalid (s.context limit) text target reason : Attempt α) := by
  simp only [Converter.invalid, limit_context]
  exact (Ends.ofWalk htext).bind fun _ _ _ => ends_throw _

theorem ends_onText (name : String) {f : Nat → Value → String → Attempt (Option Value)}
    (hf : ∀ text, Ends fun limit => f limit v text) :
    Ends fun limit => Builtin.onText (s.context limit) name (some v) target (f limit) := by
  simp only [Builtin.onText, Builtin.onValue]
  cases v.asText? with
  | some text => exact hf text
  | none => exact ends_mismatch htext name

theorem ends_stringToNumber :
    Ends fun limit =>
      (Builtin.stringToNumber s.registry).run (s.context limit) (some v) source target := by
  simp only [Builtin.stringToNumber]
  refine ends_onText htext _ fun text => ?_
  split
  · exact ends_pure none
  · split
    · exact ends_mismatch htext _
    · split
      · exact ends_pure _
      · exact ends_invalid htext _ _

theorem ends_stringToBoolean :
    Ends fun limit =>
      (Builtin.stringToBoolean s.registry).run (s.context limit) (some v) source target := by
  simp only [Builtin.stringToBoolean]
  refine ends_onText htext _ fun text => ?_
  split
  · exact ends_pure none
  · exact ends_pure _

theorem ends_stringToCharacter :
    Ends fun limit =>
      (Builtin.stringToCharacter s.registry).run (s.context limit) (some v) source target := by
  -- no `simp` and no `split` here: both would bring in the proofs of code points
  unfold Builtin.stringToCharacter
  dsimp only
  refine ends_onText htext _ fun text => .ite (ends_pure none) ?_
  cases readInteger (.unsigned 32) (trimmed text).toList with
  | ok code => exact .dite (fun _ => ends_pure _) fun _ => ends_invalid htext _ _
  | error _ =>
    dsimp only
    split
    · exact ends_pure _
    · exact ends_invalid htext _ _

theorem ends_numberToNumber :
    Ends fun limit =>
      (Builtin.numberToNumber s.registry).run (s.context limit) (some v) source target := by
  simp only [Builtin.numberToNumber, Builtin.onValue]
  split
  · split
    · exact ends_pure _
    · exact ends_invalid htext _ _
  · exact ends_mismatch htext _

theorem ends_stringToEnum :
    Ends fun limit =>
      (Builtin.stringToEnum s.registry).run (s.context limit) (some v) source target := by
  simp only [Builtin.stringToEnum]
  refine ends_onText htext _ fun text => ?_
  split
  · exact ends_pure none
  · split
    · exact ends_mismatch htext _
    · split
      · exact ends_pure _
      · exact ends_throw _

/-! ## Conversions of elements to texts -/

section

variable (hstrings : ∀ es, v.elements? = some es → ∀ e, some e ∈ es →
  Ends fun limit => (s.context limit).convert (some e) none
    (s.descriptor (Builtin.stringClass s.registry)))

omit htext in
include hstrings in
theorem ends_joinElements {es : List (Option Value)} (hes : v.elements? = some es) :
    Ends fun limit => Builtin.joinElements (s.context limit) es := by
  simp only [Builtin.joinElements, config_context]
  refine Ends.bind (Ends.mapM fun element helement => ?_) fun _ _ _ => ends_pure _
  cases element with
  | none => exact ends_pure "null"
  | some e =>
    simp only [Builtin.elementString, registry_context]
    refine Ends.bind (hstrings es hes e helement) fun found _ _ => ?_
    split <;> exact ends_pure _

include hstrings

theorem ends_arrayToString :
    Ends fun limit =>
      (Builtin.arrayToString s.registry).run (s.context limit) (some v) source target := by
  simp only [Builtin.arrayToString, Builtin.onValue]
  split
  · exact (ends_joinElements hstrings rfl).bind fun _ _ _ => ends_pure _
  · exact ends_mismatch htext _

theorem ends_collectionToString :
    Ends fun limit =>
      (Builtin.collectionToString s.registry).run (s.context limit) (some v) source target := by
  simp only [Builtin.collectionToString, Builtin.onValue]
  split
  · exact (ends_joinElements hstrings rfl).bind fun _ _ _ => ends_pure _
  · exact ends_mismatch htext _

end

/-! ## Conversions to elements -/

section

variable (htarget : target.registry.Acyclic)
  (hcalls : ∀ element value, target.HasElement element →
    Ends fun limit => (s.context limit).convert value none element)

include htarget

/-- What is done with the element type of the target ends. -/
theorem ends_targetElement_bind {α : Type} {f : TypeDescriptor → Nat → Attempt α}
    (hf : ∀ element, target.HasElement element → Ends (f element)) :
    Ends fun limit => Builtin.targetElement (s.context limit) target >>= fun d => f d limit := by
  refine Ends.bind ?_ fun element limit helement => hf element
    ⟨limit, by simpa using Builtin.targetElement_gives_iff.mp helement⟩
  simp only [Builtin.targetElement, limit_context]
  refine (Ends.ofWalk (TypeDescriptor.element?_total htarget)).bind fun found _ _ => ?_
  cases found with
  | some element => exact ends_pure element
  | none => exact (Ends.ofWalk htext).bind fun _ _ _ => ends_throw _

include hcalls

omit htext htarget in
theorem ends_convertElements {element : TypeDescriptor} (helement : target.HasElement element)
    (xs : List (Option Value)) :
    Ends fun limit => Builtin.convertElements (s.context limit) element xs :=
  .mapM fun x _ => hcalls element x helement

theorem ends_stringToArray :
    Ends fun limit =>
      (Builtin.stringToArray s.registry).run (s.context limit) (some v) source target := by
  simp only [Builtin.stringToArray]
  refine ends_onText htext _ fun text => ?_
  simp only [context, splitElements_contextAt_eq]
  exact ends_targetElement_bind htext htarget fun element helement =>
    (ends_convertElements hcalls helement _).bind fun _ _ _ => ends_pure _

theorem ends_stringToCollection :
    Ends fun limit =>
      (Builtin.stringToCollection s.registry).run (s.context limit) (some v) source target := by
  simp only [Builtin.stringToCollection]
  refine ends_onText htext _ fun text => ?_
  simp only [context, splitElements_contextAt_eq, registry_contextAt, limit_contextAt]
  refine ends_targetElement_bind htext htarget fun element helement => ?_
  have hregistry : element.registry = target.registry := helement.cases.1
  have hdefinite := TypeDescriptor.isDefinite_total (d := element) (hregistry ▸ htarget)
  refine (Ends.ofWalk hdefinite).bind fun definite _ _ => ?_
  cases definite with
  | true =>
    exact (ends_convertElements hcalls helement _).bind fun elements _ _ =>
      (ends_ofExcept _).bind fun _ _ _ => ends_pure _
  | false =>
    exact (ends_pure _).bind fun elements _ _ =>
      (ends_ofExcept _).bind fun _ _ _ => ends_pure _

theorem ends_arrayToCollection :
    Ends fun limit =>
      (Builtin.arrayToCollection s.registry).run (s.context limit) (some v) source target := by
  simp only [Builtin.arrayToCollection, Builtin.onValue]
  split
  · simp only [registry_context]
    exact ends_targetElement_bind htext htarget fun element helement =>
      (ends_convertElements hcalls helement _).bind fun elements _ _ =>
        (ends_ofExcept _).bind fun _ _ _ => ends_pure _
  · exact ends_mismatch htext _

theorem ends_collectionToArray :
    Ends fun limit =>
      (Builtin.collectionToArray s.registry).run (s.context limit) (some v) source target := by
  simp only [Builtin.collectionToArray, Builtin.onValue]
  split
  · exact ends_targetElement_bind htext htarget fun element helement =>
      (ends_convertElements hcalls helement _).bind fun _ _ _ => ends_pure _
  · exact ends_mismatch htext _

/-- What a built-in converter does ends if the conversions of elements end. -/
theorem ends_run
    (hstrings : ∀ es, v.elements? = some es → ∀ e, some e ∈ es →
      Ends fun limit => (s.context limit).convert (some e) none
        (s.descriptor (Builtin.stringClass s.registry)))
    {c : Converter} (hc : c ∈ Builtin.defaults s.registry) :
    Ends fun limit => c.run (s.context limit) (some v) source target := by
  simp only [Builtin.defaults, List.mem_cons, List.not_mem_nil, or_false] at hc
  -- one case for each converter, in the order in which they are registered
  rcases hc with rfl | rfl | rfl | rfl | rfl | rfl | rfl | rfl | rfl | rfl | rfl | rfl
  · exact ends_stringToNumber htext
  · exact ends_stringToBoolean htext
  · exact ends_stringToCharacter htext
  · exact ends_numberToNumber htext
  · exact ends_pure _
  · exact ends_stringToEnum htext
  · exact ends_stringToArray htext htarget hcalls
  · exact ends_arrayToString htext hstrings
  · exact ends_stringToCollection htext htarget hcalls
  · exact ends_collectionToString htext hstrings
  · exact ends_arrayToCollection htext htarget hcalls
  · exact ends_collectionToArray htext htarget hcalls

end

end

end ConversionService

end TypeConversion
