import TypeConversion.Proofs.Registry.Search
import TypeConversion.Proofs.Node.Resolution

/-!
# Subclassing is a preorder

What subclassing is, told apart by whether target and source are arrays: between classes it is
inheritance, with a shortcut for the top class and none for primitives; an array is below three
classes, and below the arrays of what its component is below.

These rules fit together if the top class, which everything is below by the shortcut, has no
supertypes of its own, and if the two interfaces of arrays lead nowhere but to the top class.  The
inheritance may have circles, lead to classes that are not declared, and name arrays as supertypes.

**Results**

* `isSubclass_iff_of_classes`, `isSubclass_iff_of_array`, `isSubclass_arrays_iff`: the rules;
* `isSubclass_preorder`: subclassing is reflexive and transitive.
-/

namespace TypeConversion

namespace Erasure

/-- Arrays of equal components are equal. -/
theorem eq_of_component? {a b c : Erasure} (ha : a.component? = some c) (hb : b.component? = some c) :
    a = b := by
  have helement : ∀ e : Erasure, e.component? = some c → e.element = c.element := by
    intro e he
    rw [component?] at he
    split at he
    · rw [← Option.some.inj he]
    · simp at he
  have hdims : a.dims = b.dims := by
    have ha' := toNat_dims_of_component? ha
    have hb' := toNat_dims_of_component? hb
    exact UInt8.toNat_inj.mp (by omega)
  obtain ⟨x, m⟩ := a
  obtain ⟨y, n⟩ := b
  obtain rfl : m = n := hdims
  rw [show x = y from (helement _ ha).trans (helement _ hb).symm]

theorem component?_eq_none_iff (e : Erasure) : e.component? = none ↔ e.isArray = false := by
  rw [component?]
  split <;> simp_all

end Erasure

namespace Registry

variable {r : Registry}

/-! ## The rules of subclassing -/

/-- Between different classes subclassing is inheritance, but primitives are below nothing. -/
theorem isSubclass_iff_of_classes {target source : Erasure} (ht : target.isArray = false)
    (hs : source.isArray = false) :
    r.isSubclass target source = true ↔
      target = source ∨ r.isPrimitive target = false ∧ r.isPrimitive source = false ∧
        (target = r.object ∨ r.IsBelow source target) := by
  have hobject : target.element = r.wellKnown.object ↔ target = r.object := by
    rcases exists_eq_ofClass ht with ⟨c, rfl⟩
    simp [object, Erasure.ofClass]
  have htc := (target.component?_eq_none_iff).mpr ht
  have hsc := (source.component?_eq_none_iff).mpr hs
  have hdims : r.isSubclass target source = true ↔
      target = source ∨ r.isSubclassPlain target source = true := by
    rw [isSubclass]
    cases target.dims.toNat <;> simp [isSubclassWithin, htc, hsc]
  rw [hdims, isSubclassPlain]
  refine or_congr_right ?_
  cases r.isPrimitive target with
  | true => simp
  | false =>
    cases r.isPrimitive source with
    | true => simp
    | false => simp [hobject, reaches_iff r hs]

/-- Above an array there are three classes. -/
theorem isSubclass_iff_of_array {target source : Erasure} (ht : target.isArray = false)
    (hs : source.isArray = true) :
    r.isSubclass target source = true ↔
      target = r.object ∨ target = .ofClass r.wellKnown.cloneable ∨
        target = .ofClass r.wellKnown.serializable := by
  have hne : target ≠ source := by
    rintro rfl
    simp [ht] at hs
  have htc := (target.component?_eq_none_iff).mpr ht
  cases hsc : source.component? with
  | none => simp [(source.component?_eq_none_iff).mp hsc] at hs
  | some s =>
    rcases exists_eq_ofClass ht with ⟨c, rfl⟩
    change r.isSubclassWithin 0 (.ofClass c) source = true ↔ _
    rw [isSubclassWithin, if_neg hne]
    simp only [Erasure.component?_ofClass, hsc, Bool.or_eq_true, decide_eq_true_eq, or_assoc]
    simp [object, Erasure.ofClass]

/-- Below an array there are only arrays. -/
theorem not_isSubclass_of_array {target source : Erasure} (ht : target.isArray = true)
    (hs : source.isArray = false) : r.isSubclass target source = false := by
  have hne : target ≠ source := by
    rintro rfl
    simp [ht] at hs
  have hsc := (source.component?_eq_none_iff).mpr hs
  cases htc : target.component? with
  | none => simp [(target.component?_eq_none_iff).mp htc] at ht
  | some t =>
    rw [isSubclass]
    cases target.dims.toNat <;> simp [isSubclassWithin, hne, htc, hsc]

/-- Between different arrays subclassing is that of the components, unless they are primitive. -/
theorem isSubclass_arrays_iff {target source t s : Erasure} (ht : target.component? = some t)
    (hs : source.component? = some s) :
    r.isSubclass target source = true ↔
      target = source ∨ r.isPrimitive t = false ∧ r.isPrimitive s = false ∧
        r.isSubclass t s = true := by
  have hdims := Erasure.toNat_dims_of_component? ht
  by_cases heq : target = source
  · simp [heq]
  · have hcomponents : t ≠ s := by
      rintro rfl
      exact heq (Erasure.eq_of_component? ht hs)
    rw [isSubclass, ← hdims, isSubclassWithin, if_neg heq]
    simp only [ht, hs, heq, false_or]
    cases hprimitive : r.isPrimitive t || r.isPrimitive s with
    | true =>
      rcases Bool.or_eq_true_iff.mp hprimitive with h | h <;> simp [h, hcomponents]
    | false =>
      rcases Bool.or_eq_false_iff.mp hprimitive with ⟨ht', hs'⟩
      simp [ht', hs', isSubclass]

/-! ## Reflexivity and transitivity -/

/-- The top class has no supertypes if it declares no interfaces. -/
theorem supertypes_object (hobject : r.genericInterfaces r.object = []) :
    r.supertypes r.object = [] := by
  have hsuper : r.genericSuperclass r.object = none := by
    rw [genericSuperclass]
    simp only [object, Erasure.isArray_ofClass, Bool.false_eq_true, if_false]
    split <;> simp
  simp [supertypes, superclass?, interfaces, hsuper, hobject]

/-- Only the top class is above the top class. -/
theorem eq_object_of_isSubclass (hobject : r.genericInterfaces r.object = []) {e : Erasure}
    (he : e.isArray = false) (h : r.isSubclass e r.object = true) : e = r.object := by
  rcases (isSubclass_iff_of_classes he rfl).mp h with rfl | ⟨-, -, rfl | hbelow⟩
  · rfl
  · rfl
  · rcases Relation.ReflTransGen.cases_head hbelow with rfl | ⟨s, hs, -⟩
    · rfl
    · rw [HasParent, supertypes_object hobject] at hs
      simp at hs

section Transitivity

variable {a b c : Erasure}

/-- Between classes subclassing is transitive. -/
theorem isSubclass_trans_classes (hobject : r.genericInterfaces r.object = [])
    (ha : a.isArray = false) (hb : b.isArray = false) (hc : c.isArray = false)
    (hab : r.isSubclass a b = true) (hbc : r.isSubclass b c = true) : r.isSubclass a c = true := by
  rcases (isSubclass_iff_of_classes hb hc).mp hbc with rfl | ⟨-, hprimitive, hbc⟩
  · exact hab
  rcases hbc with rfl | hbc
  · obtain rfl := eq_object_of_isSubclass hobject ha hab
    assumption
  rcases (isSubclass_iff_of_classes ha hb).mp hab with rfl | ⟨hprimitive', -, hab⟩
  · assumption
  rw [isSubclass_iff_of_classes ha hc]
  refine .inr ⟨hprimitive', hprimitive, ?_⟩
  rcases hab with rfl | hab
  · exact .inl rfl
  · exact .inr (hbc.trans hab)

/-- What is above a class that arrays are below is one of those. -/
theorem isSubclass_trans_of_array (hobject : r.genericInterfaces r.object = [])
    (hmarkers : ∀ m ∈ [r.wellKnown.cloneable, r.wellKnown.serializable], ∀ e,
      Relation.TransGen r.HasParent (.ofClass m) e → e = r.object)
    (ha : a.isArray = false) (hb : b.isArray = false) (hc : c.isArray = true)
    (hab : r.isSubclass a b = true) (hbc : r.isSubclass b c = true) : r.isSubclass a c = true := by
  have hmarker : ∀ m ∈ [r.wellKnown.cloneable, r.wellKnown.serializable],
      r.isSubclass a (.ofClass m) = true → a = .ofClass m ∨ a = r.object := by
    intro m hm h
    rcases (isSubclass_iff_of_classes ha rfl).mp h with rfl | ⟨-, -, rfl | hbelow⟩
    · exact .inl rfl
    · exact .inr rfl
    · rcases Relation.reflTransGen_iff_eq_or_transGen.mp hbelow with rfl | hbelow
      · exact .inl rfl
      · exact .inr (hmarkers m hm a hbelow)
  rw [isSubclass_iff_of_array ha hc]
  rcases (isSubclass_iff_of_array hb hc).mp hbc with rfl | rfl | rfl
  · exact .inl (eq_object_of_isSubclass hobject ha hab)
  · rcases hmarker _ (by simp) hab with h | h
    · exact .inr (.inl h)
    · exact .inl h
  · rcases hmarker _ (by simp) hab with h | h
    · exact .inr (.inr h)
    · exact .inl h

/--
Subclassing is reflexive and transitive for erasures of all dimensions, if the top class declares no
interfaces and the two interfaces of arrays have no ancestor but the top class.
-/
theorem isSubclass_preorder (r : Registry) (hobject : r.genericInterfaces r.object = [])
    (hmarkers : ∀ m ∈ [r.wellKnown.cloneable, r.wellKnown.serializable], ∀ e,
      Relation.TransGen r.HasParent (.ofClass m) e → e = r.object) :
    (∀ a, r.isSubclass a a = true) ∧
      ∀ a b c, r.isSubclass a b = true → r.isSubclass b c = true → r.isSubclass a c = true := by
  refine ⟨r.isSubclass_self, fun a => ?_⟩
  -- arrays are compared by their components, so the dimensions of the target go down
  induction hn : a.dims.toNat generalizing a with
  | zero =>
    intro b c hab hbc
    have ha : a.isArray = false := by
      rw [← Bool.not_eq_true, Erasure.isArray_iff]
      omega
    cases hb : b.isArray with
    | false =>
      cases hc : c.isArray with
      | false => exact isSubclass_trans_classes hobject ha hb hc hab hbc
      | true => exact isSubclass_trans_of_array hobject hmarkers ha hb hc hab hbc
    | true =>
      cases hc : c.isArray with
      | false => simp [not_isSubclass_of_array hb hc] at hbc
      | true => exact (isSubclass_iff_of_array ha hc).mpr ((isSubclass_iff_of_array ha hb).mp hab)
  | succ n ih =>
    intro b c hab hbc
    have ha : a.isArray = true := by
      rw [Erasure.isArray_iff]
      omega
    have harray : ∀ {x y : Erasure}, x.isArray = true → r.isSubclass x y = true →
        y.isArray = true := by
      intro x y hx hxy
      cases hy : y.isArray with
      | true => rfl
      | false => simp [not_isSubclass_of_array hx hy] at hxy
    have hb := harray ha hab
    have hc := harray hb hbc
    have hcomponent : ∀ x : Erasure, x.isArray = true → ∃ k, x.component? = some k := by
      intro x hx
      cases hk : x.component? with
      | some k => exact ⟨k, rfl⟩
      | none => simp [(x.component?_eq_none_iff).mp hk] at hx
    rcases hcomponent a ha with ⟨a', ha'⟩
    rcases hcomponent b hb with ⟨b', hb'⟩
    rcases hcomponent c hc with ⟨c', hc'⟩
    rcases (isSubclass_arrays_iff ha' hb').mp hab with rfl | ⟨hpa, -, hab'⟩
    · exact hbc
    rcases (isSubclass_arrays_iff hb' hc').mp hbc with rfl | ⟨-, hpc, hbc'⟩
    · exact hab
    have hdims := Erasure.toNat_dims_of_component? ha'
    rw [isSubclass_arrays_iff ha' hc']
    exact .inr ⟨hpa, hpc, ih a' (by omega) b' c' hab' hbc'⟩

end Transitivity

/-- Two classes that extend each other, one of which names an array and no class as interfaces. -/
def circular : Registry :=
  (bootstrap.push { name := "Ring", superClass := some (.ofClass ⟨38⟩) }).push
    { name := "Gnir", superClass := some (.ofClass ⟨37⟩),
      interfaces := [.plain ⟨Bootstrap.wellKnown.number, 1⟩, .ofClass ⟨99⟩] }

/-- Around the circle and through the array, everything is below what is above it. -/
theorem isSubclass_preorder_circular :
    circular.genericInterfaces circular.object = [] ∧
      circular.isSubclass (.ofClass Bootstrap.wellKnown.cloneable) (.ofClass ⟨38⟩) = true ∧
      circular.isSubclass ⟨Bootstrap.wellKnown.cloneable, 2⟩ ⟨⟨38⟩, 2⟩ = true ∧
      circular.isSubclass ⟨⟨38⟩, 2⟩ ⟨⟨37⟩, 2⟩ = true ∧
      circular.isSubclass ⟨Bootstrap.wellKnown.cloneable, 2⟩ ⟨⟨37⟩, 2⟩ = true := by
  have hobject : circular.genericInterfaces circular.object = [] := by decide +kernel
  have hnone : ∀ m ∈ [circular.wellKnown.cloneable, circular.wellKnown.serializable],
      circular.supertypes (.ofClass m) = [] := by
    decide +kernel
  have hmarkers : ∀ m ∈ [circular.wellKnown.cloneable, circular.wellKnown.serializable], ∀ e,
      Relation.TransGen circular.HasParent (.ofClass m) e → e = circular.object := by
    intro m hm e h
    rcases Relation.TransGen.head'_iff.mp h with ⟨s, hs, -⟩
    rw [HasParent, hnone m hm] at hs
    simp at hs
  have hmarker : circular.isSubclass ⟨Bootstrap.wellKnown.cloneable, 2⟩ ⟨⟨38⟩, 2⟩ = true := by
    decide +kernel
  have hcircle : circular.isSubclass ⟨⟨38⟩, 2⟩ ⟨⟨37⟩, 2⟩ = true := by decide +kernel
  exact ⟨hobject, by decide +kernel, hmarker, hcircle,
    (isSubclass_preorder circular hobject hmarkers).2 _ _ _ hmarker hcircle⟩

end Registry

end TypeConversion
