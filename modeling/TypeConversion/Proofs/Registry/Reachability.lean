import TypeConversion.Proofs.Registry.Subclass
import TypeConversion.Proofs.Registry.Acyclic
import Mathlib.Data.Set.Card

/-!
# Subclassing decides inheritance

Subclassing is computed within bounds that are taken from its input: the search for an ancestor has
a number of steps, and arrays are taken apart as often as the target has dimensions.  Here the
search and the question that it serves are runs without bounds, with a rule for each way to go on.

**Termination.**  A step of the search drops an entry of the queue that was visited before, or
visits an erasure for the first time.  There are finitely many erasures, so that the search comes to
an end in every graph: with circles, with classes that are not declared, and with arrays as
supertypes.  The dimensions of arrays go down.

**Results**

* `exists_searchAnswers`, `exists_subclassAnswers`: all runs come to an end;
* `SearchAnswers.eq_true_iff`: what a search from a class answers is whether the target is an
  ancestor;
* `isSubclass_decides_ancestry`: subclassing is the answer of the run, which is ancestry between
  classes and goes by the components between arrays.
-/

namespace TypeConversion

namespace Registry

variable {r : Registry}

/-! ## The search -/

/-- What a search from a queue on answers if some erasures have been visited before. -/
inductive SearchAnswers (r : Registry) (target : Erasure) :
    List Erasure → List Erasure → Bool → Prop
  | exhausted (visited : List Erasure) : SearchAnswers r target [] visited false
  | skipped {e : Erasure} {queue visited : List Erasure} {answer : Bool} (he : e ∈ visited)
      (rest : SearchAnswers r target queue visited answer) :
      SearchAnswers r target (e :: queue) visited answer
  | found {queue visited : List Erasure} (hnew : target ∉ visited) :
      SearchAnswers r target (target :: queue) visited true
  | visited {e : Erasure} {queue visited : List Erasure} {answer : Bool} (hnew : e ∉ visited)
      (hne : e ≠ target)
      (rest : SearchAnswers r target (queue ++ r.supertypes e) (e :: visited) answer) :
      SearchAnswers r target (e :: queue) visited answer

/-- How many erasures have not been visited. -/
noncomputable def unvisited (visited : List Erasure) : Nat := {e : Erasure | e ∉ visited}.ncard

theorem unvisited_cons_lt {e : Erasure} {visited : List Erasure} (he : e ∉ visited) :
    unvisited (e :: visited) < unvisited visited := by
  refine Set.ncard_lt_ncard ⟨fun a ha => ?_, fun hsub => ?_⟩ (Set.toFinite _)
  · exact fun hmem => ha (List.mem_cons_of_mem _ hmem)
  · exact hsub he List.mem_cons_self

/-- Every search comes to an end. -/
theorem exists_searchAnswers (r : Registry) (target : Erasure) (queue visited : List Erasure) :
    ∃ answer, r.SearchAnswers target queue visited answer := by
  -- skipping leaves the visited erasures as they are, so it is the queue that goes down then
  induction hn : unvisited visited using Nat.strong_induction_on generalizing queue visited with
  | _ n ih =>
  subst hn
  induction queue with
  | nil => exact ⟨false, .exhausted visited⟩
  | cons e queue hskip =>
    by_cases hvisited : e ∈ visited
    · obtain ⟨answer, hrest⟩ := hskip
      exact ⟨answer, .skipped hvisited hrest⟩
    · by_cases htarget : e = target
      · subst htarget
        exact ⟨true, .found hvisited⟩
      · obtain ⟨answer, hrest⟩ :=
          ih _ (unvisited_cons_lt hvisited) (queue ++ r.supertypes e) (e :: visited) rfl
        exact ⟨answer, .visited hvisited htarget hrest⟩

/-- With enough steps the bounded search gives the answer. -/
theorem SearchAnswers.exists_steps {target : Erasure} {queue visited : List Erasure}
    {answer : Bool} (h : r.SearchAnswers target queue visited answer) :
    ∃ enough, ∀ steps, enough ≤ steps → r.reaches target steps queue visited = answer := by
  induction h with
  | exhausted visited => exact ⟨0, fun steps _ => by cases steps <;> rfl⟩
  | skipped he _ ih =>
    obtain ⟨enough, ih⟩ := ih
    refine ⟨enough + 1, fun steps hle => ?_⟩
    obtain ⟨steps, rfl⟩ : ∃ k, steps = k + 1 := ⟨steps - 1, by omega⟩
    rw [reaches, if_pos (by simpa using he)]
    exact ih steps (by omega)
  | found hnew =>
    refine ⟨1, fun steps hle => ?_⟩
    obtain ⟨steps, rfl⟩ : ∃ k, steps = k + 1 := ⟨steps - 1, by omega⟩
    rw [reaches, if_neg (by simpa using hnew), if_pos rfl]
  | visited hnew hne _ ih =>
    obtain ⟨enough, ih⟩ := ih
    refine ⟨enough + 1, fun steps hle => ?_⟩
    obtain ⟨steps, rfl⟩ : ∃ k, steps = k + 1 := ⟨steps - 1, by omega⟩
    rw [reaches, if_neg (by simpa using hnew), if_neg hne]
    exact ih steps (by omega)

/-- A search from a class answers whether the target is the class or an ancestor of it. -/
theorem SearchAnswers.eq_true_iff {target source : Erasure} {answer : Bool}
    (h : r.SearchAnswers target [source] [] answer) (hs : source.isArray = false) :
    answer = true ↔ r.IsBelow source target := by
  obtain ⟨enough, hsteps⟩ := h.exists_steps
  constructor
  · rintro rfl
    obtain ⟨e, he, hbelow⟩ := exists_of_reaches (hsteps enough le_rfl)
    obtain rfl := List.mem_singleton.mp he
    exact hbelow
  · intro hbelow
    have hreaches := (reaches_iff r hs target).mpr hbelow
    rw [← hsteps (max r.searchSteps enough) (le_max_right ..)]
    exact reaches_mono (le_max_left ..) hreaches

/-! ## The question of subclassing -/

/-- What the question whether `source` is a subclass of `target` comes to. -/
inductive SubclassAnswers (r : Registry) : Erasure → Erasure → Bool → Prop
  | same (e : Erasure) : SubclassAnswers r e e true
  | ofArray {target source : Erasure} (ht : target.isArray = false) (hs : source.isArray = true) :
      SubclassAnswers r target source (decide (target.element ∈
        [r.wellKnown.object, r.wellKnown.cloneable, r.wellKnown.serializable]))
  | aboveArray {target source : Erasure} (ht : target.isArray = true)
      (hs : source.isArray = false) : SubclassAnswers r target source false
  | primitiveComponent {target source t s : Erasure} (hne : target ≠ source)
      (ht : target.component? = some t) (hs : source.component? = some s)
      (hp : r.isPrimitive t = true ∨ r.isPrimitive s = true) :
      SubclassAnswers r target source (decide (t = s))
  | components {target source t s : Erasure} {answer : Bool} (hne : target ≠ source)
      (ht : target.component? = some t) (hs : source.component? = some s)
      (hp : r.isPrimitive t = false ∧ r.isPrimitive s = false)
      (h : SubclassAnswers r t s answer) : SubclassAnswers r target source answer
  | primitive {target source : Erasure} (hne : target ≠ source) (ht : target.isArray = false)
      (hs : source.isArray = false)
      (hp : r.isPrimitive target = true ∨ r.isPrimitive source = true) :
      SubclassAnswers r target source false
  | object {source : Erasure} (hne : r.object ≠ source) (hs : source.isArray = false)
      (hp : r.isPrimitive r.object = false ∧ r.isPrimitive source = false) :
      SubclassAnswers r r.object source true
  | search {target source : Erasure} {answer : Bool} (hne : target ≠ source)
      (ht : target.isArray = false) (hs : source.isArray = false)
      (hp : r.isPrimitive target = false ∧ r.isPrimitive source = false)
      (hobject : target ≠ r.object) (h : r.SearchAnswers target [source] [] answer) :
      SubclassAnswers r target source answer

/-- Between classes the question comes to an end. -/
theorem exists_subclassAnswers_of_classes {target source : Erasure} (hne : target ≠ source)
    (ht : target.isArray = false) (hs : source.isArray = false) :
    ∃ answer, r.SubclassAnswers target source answer := by
  by_cases hp : r.isPrimitive target = true ∨ r.isPrimitive source = true
  · exact ⟨false, .primitive hne ht hs hp⟩
  · have hp : r.isPrimitive target = false ∧ r.isPrimitive source = false := by simpa using hp
    by_cases hobject : target = r.object
    · subst hobject
      exact ⟨true, .object hne hs hp⟩
    · obtain ⟨answer, h⟩ := r.exists_searchAnswers target [source] []
      exact ⟨answer, .search hne ht hs hp hobject h⟩

/-- The question comes to an end for all erasures. -/
theorem exists_subclassAnswers (r : Registry) (target source : Erasure) :
    ∃ answer, r.SubclassAnswers target source answer := by
  -- arrays lead to their components, so the dimensions of the target go down
  induction hn : target.dims.toNat using Nat.strong_induction_on generalizing target source with
  | _ n ih =>
  subst hn
  by_cases hne : target = source
  · subst hne
    exact ⟨true, .same target⟩
  cases htc : target.component? with
  | none =>
    have ht := (target.component?_eq_none_iff).mp htc
    cases hs : source.isArray with
    | false => exact exists_subclassAnswers_of_classes hne ht hs
    | true => exact ⟨_, .ofArray ht hs⟩
  | some t =>
    have ht : target.isArray = true := by
      simpa [htc] using mt (target.component?_eq_none_iff).mpr
    cases hsc : source.component? with
    | none => exact ⟨false, .aboveArray ht ((source.component?_eq_none_iff).mp hsc)⟩
    | some s =>
      by_cases hp : r.isPrimitive t = true ∨ r.isPrimitive s = true
      · exact ⟨_, .primitiveComponent hne htc hsc hp⟩
      · have hp : r.isPrimitive t = false ∧ r.isPrimitive s = false := by simpa using hp
        have hdims := Erasure.toNat_dims_of_component? htc
        obtain ⟨answer, h⟩ := ih t.dims.toNat (by omega) t s rfl
        exact ⟨answer, .components hne htc hsc hp h⟩

/-- Arrays are compared by their components, and primitive components only by being the same. -/
theorem isSubclass_eq_ite_of_components {target source t s : Erasure}
    (ht : target.component? = some t) (hs : source.component? = some s) :
    r.isSubclass target source =
      if r.isPrimitive t || r.isPrimitive s then decide (t = s) else r.isSubclass t s := by
  by_cases heq : target = source
  · subst heq
    obtain rfl : t = s := Option.some.inj (ht.symm.trans hs)
    simp
  · have hcomponents : t ≠ s := fun h => heq (Erasure.eq_of_component? ht (h ▸ hs))
    rw [Bool.eq_iff_iff, isSubclass_arrays_iff ht hs]
    cases r.isPrimitive t <;> cases r.isPrimitive s <;> simp [heq, hcomponents]

/-- What the question comes to is what is computed. -/
theorem SubclassAnswers.eq_isSubclass {target source : Erasure} {answer : Bool}
    (h : r.SubclassAnswers target source answer) : r.isSubclass target source = answer := by
  induction h with
  | same e => exact r.isSubclass_self e
  | @ofArray target source ht hs =>
    obtain ⟨c, rfl⟩ := exists_eq_ofClass ht
    rw [Bool.eq_iff_iff, isSubclass_iff_of_array ht hs]
    simp [Registry.object, Erasure.ofClass]
  | aboveArray ht hs => exact not_isSubclass_of_array ht hs
  | primitiveComponent _ ht hs hp =>
    rw [isSubclass_eq_ite_of_components ht hs, if_pos (by simpa using hp)]
  | components _ ht hs hp _ ih => simpa [isSubclass_eq_ite_of_components ht hs, hp] using ih
  | primitive hne ht hs hp =>
    rw [← Bool.not_eq_true, isSubclass_iff_of_classes ht hs]
    rintro (heq | ⟨hpt, hps, -⟩)
    · exact hne heq
    · simp [hpt, hps] at hp
  | object _ hs hp => exact (isSubclass_iff_of_classes rfl hs).mpr (.inr ⟨hp.1, hp.2, .inl rfl⟩)
  | search hne ht hs hp hobject h =>
    rw [Bool.eq_iff_iff, isSubclass_iff_of_classes ht hs, h.eq_true_iff hs]
    simp [hne, hp, hobject]

/--
Subclassing is decided in every registry: the question comes to what is computed, and to nothing
else.  Between different classes that are not primitive this is whether the target is the top class
or there is a path to it along superclasses and interfaces; between arrays it is what their
components come to, or that these are the same where one is primitive.
-/
theorem isSubclass_decides_ancestry (r : Registry) :
    (∀ target source answer,
      r.SubclassAnswers target source answer ↔ r.isSubclass target source = answer) ∧
    (∀ target source, target ≠ source → target.isArray = false → source.isArray = false →
      r.isPrimitive target = false → r.isPrimitive source = false →
      (r.isSubclass target source = true ↔
        target = r.object ∨ Relation.ReflTransGen r.HasParent source target)) ∧
    ∀ target source t s, target.component? = some t → source.component? = some s →
      r.isSubclass target source =
        if r.isPrimitive t || r.isPrimitive s then decide (t = s) else r.isSubclass t s := by
  refine ⟨fun target source answer => ⟨SubclassAnswers.eq_isSubclass, ?_⟩, ?_, ?_⟩
  · rintro rfl
    obtain ⟨answer, h⟩ := r.exists_subclassAnswers target source
    rwa [h.eq_isSubclass]
  · intro target source hne ht hs hpt hps
    rw [isSubclass_iff_of_classes ht hs]
    simp [hne, hpt, hps, IsBelow]
  · exact fun target source t s => isSubclass_eq_ite_of_components

/-- The circle leads through an array to what arrays are below, and not to strings. -/
theorem isSubclass_decides_ancestry_circular :
    circular.SubclassAnswers (.ofClass Bootstrap.wellKnown.cloneable) (.ofClass ⟨37⟩) true ∧
      Relation.ReflTransGen circular.HasParent (.ofClass ⟨37⟩)
        (.ofClass Bootstrap.wellKnown.cloneable) ∧
      ¬Relation.ReflTransGen circular.HasParent (.ofClass ⟨37⟩)
        (.ofClass Bootstrap.wellKnown.string) ∧
      circular.isSubclass ⟨Bootstrap.wellKnown.cloneable, 1⟩ ⟨⟨37⟩, 1⟩ =
        circular.isSubclass (.ofClass Bootstrap.wellKnown.cloneable) (.ofClass ⟨37⟩) := by
  obtain ⟨hanswers, hclasses, harrays⟩ := isSubclass_decides_ancestry circular
  have hcloneable :
      circular.isSubclass (.ofClass Bootstrap.wellKnown.cloneable) (.ofClass ⟨37⟩) = true := by
    decide +kernel
  have hstring :
      circular.isSubclass (.ofClass Bootstrap.wellKnown.string) (.ofClass ⟨37⟩) = false := by
    decide +kernel
  have hprimitive : ∀ c ∈ [⟨37⟩, Bootstrap.wellKnown.cloneable, Bootstrap.wellKnown.string],
      circular.isPrimitive (.ofClass c) = false := by decide +kernel
  have hring := hprimitive ⟨37⟩ (by simp)
  have hmarker := hprimitive Bootstrap.wellKnown.cloneable (by simp)
  refine ⟨(hanswers _ _ _).mpr hcloneable, ?_, fun hpath => ?_, ?_⟩
  · have habove := (hclasses _ _ (by decide) rfl rfl hmarker hring).mp hcloneable
    exact habove.resolve_left (by decide)
  · have habove := (hclasses _ _ (by decide) rfl rfl (hprimitive _ (by simp)) hring).mpr
      (.inr hpath)
    simp [hstring] at habove
  · have hcomponents := harrays ⟨Bootstrap.wellKnown.cloneable, 1⟩ ⟨⟨37⟩, 1⟩
      (.ofClass Bootstrap.wellKnown.cloneable) (.ofClass ⟨37⟩) rfl rfl
    simpa only [hmarker, hring, Bool.or_self, Bool.false_eq_true, if_false] using hcomponents

end Registry

end TypeConversion
