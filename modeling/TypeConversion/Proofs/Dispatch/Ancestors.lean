import TypeConversion.Proofs.Dispatch.Strings

/-!
# What is met is above

Besides the ancestors of a class its hierarchy meets only what is above its box, the class of enums
and the top class.  So collections are met only from below; and since the class of enums is left out
wherever it is met as a superclass, only enums and that class itself have it in their hierarchies.

**Results**

* `mem_classHierarchy_cases`: what is met in the hierarchy of a class;
* `ExtendsBase.isBelow_collection_of_mem_classHierarchy`: what meets the class of collections is
  below it;
* `ExtendsBase.eq_or_isEnum_of_mem_classHierarchy`: what meets the class of enums is an enum, or
  that class.
-/

namespace TypeConversion

namespace Registry

variable {r : Registry}

/-! ## Primitives and boxes -/

/-- The primitives and their boxes, and all that is above these. -/
def scalarLineage : List Erasure :=
  (Bootstrap.wellKnown.boxes.map (·.1) ++ Bootstrap.wellKnown.boxes.map (·.2) ++
    [Bootstrap.wellKnown.number, Bootstrap.wellKnown.comparable, Bootstrap.wellKnown.serializable,
      Bootstrap.wellKnown.object]).map .ofClass

theorem isLineage_scalarLineage : IsLineage scalarLineage := by
  unfold IsLineage
  decide

namespace ExtendsBase

/-- A type is its own box, or it is a scalar and so is its box. -/
theorem boxed_eq_or_mem_scalarLineage (hbase : r.ExtendsBase) (e : Erasure) :
    r.boxed e = e ∨ e ∈ scalarLineage ∧ r.boxed e ∈ scalarLineage := by
  cases hlookup : e.asClass?.bind fun c => r.wellKnown.boxes.lookup c with
  | none => exact .inl (by rw [boxed, hlookup])
  | some box =>
    rcases Option.bind_eq_some_iff.mp hlookup with ⟨c, hc, hbox⟩
    rcases List.lookup_eq_some_iff.mp hbox with ⟨before, after, hsplit, -⟩
    have hmem : (c, box) ∈ Bootstrap.wellKnown.boxes := by
      rw [← hbase.wellKnown, hsplit]
      simp
    have he : e ∈ scalarLineage := by
      rw [Erasure.eq_ofClass_of_asClass? hc]
      refine List.mem_map_of_mem (List.mem_append_left _ (List.mem_append_left _ ?_))
      exact List.mem_map.mpr ⟨_, hmem, rfl⟩
    rw [hbase.boxed_eq]
    exact .inr ⟨he, (isLineage_scalarLineage e he).2.2.1⟩

/-- Scalars have no other ancestors. -/
theorem mem_scalarLineage_of_isBelow (hbase : r.ExtendsBase) {e a : Erasure}
    (he : e ∈ scalarLineage) (h : r.IsBelow e a) : a ∈ scalarLineage :=
  mem_of_isBelow (fun _ ha _ => hbase.mem_lineage_of_mem_supertypes isLineage_scalarLineage ha) he h

/-- Neither strings nor enums nor collections are above scalars. -/
theorem not_mem_scalarLineage (hbase : r.ExtendsBase) {e : Erasure}
    (he : e ∈ [.ofClass r.wellKnown.string, .ofClass r.wellKnown.enumClass,
      .ofClass r.wellKnown.collection]) : e ∉ scalarLineage := by
  have hbootstrap : ∀ e ∈ [.ofClass Bootstrap.wellKnown.string,
      .ofClass Bootstrap.wellKnown.enumClass, Erasure.ofClass Bootstrap.wellKnown.collection],
      e ∉ scalarLineage := by decide
  rw [hbase.wellKnown] at he
  exact hbootstrap e he

/-- No scalar is an enum. -/
theorem isEnum_of_mem_scalarLineage (hbase : r.ExtendsBase) {e : Erasure}
    (he : e ∈ scalarLineage) : r.isEnum e = false := by
  have hbootstrap : ∀ e ∈ scalarLineage, bootstrap.isEnum e = false := by decide
  rcases isLineage_scalarLineage e he with ⟨hplain, hdeclared, -, -⟩
  rcases exists_eq_ofClass hplain with ⟨c, rfl⟩
  exact (hbase.hasKind_eq .enumeration (isBase_of_isSome (c := c) hdeclared)).trans
    (hbootstrap _ he)

end ExtendsBase

/-! ## Ancestors -/

/-- What is met in the hierarchy of a class is above it, or above its box, or stands at the end. -/
theorem mem_classHierarchy_cases (hbase : r.ExtendsBase) {target e : Erasure}
    (hplain : target.isArray = false) (h : e ∈ r.classHierarchy target) :
    r.IsBelow target e ∨ e ∈ scalarLineage ∨ e = .ofClass r.wellKnown.enumClass := by
  have hobject : r.object ∈ scalarLineage := by
    rw [object, hbase.wellKnown]
    decide
  have hclimbed : ∀ x ∈ r.climbHierarchy false r.searchSteps [r.boxed target] [r.boxed target],
      r.IsBelow target x ∨ x ∈ scalarLineage := by
    refine forall_mem_climbHierarchy (P := fun x => r.IsBelow target x ∨ x ∈ scalarLineage) ?_ ?_
    · intro x c hx hc s hs
      obtain rfl : r.boxed x = c := by simpa [climbingEntry] using hc
      have hs := climbedSupertypes_subset _ hs
      have hscalar : r.boxed x ∈ scalarLineage → s ∈ scalarLineage := fun hbox =>
        hbase.mem_lineage_of_mem_supertypes isLineage_scalarLineage hbox hs
      rcases hbase.boxed_eq_or_mem_scalarLineage x with hself | ⟨-, hbox⟩
      · rw [hself] at hs hscalar
        exact hx.imp (fun hbelow => hbelow.tail hs) hscalar
      · exact .inr (hscalar hbox)
    · intro x hx
      rw [List.mem_singleton.mp hx]
      rcases hbase.boxed_eq_or_mem_scalarLineage target with hself | ⟨-, hbox⟩
      · rw [hself]
        exact .inl .refl
      · exact .inr hbox
  rw [classHierarchy, hplain] at h
  rcases (mem_appendNew_iff ..).mp h with h | rfl
  · rcases (mem_appendNew_iff ..).mp h with h | rfl
    · split at h
      · rcases (mem_appendNew_iff ..).mp h with h | rfl
        · exact or_assoc.mp (.inl (hclimbed e h))
        · exact .inr (.inr rfl)
      · exact or_assoc.mp (.inl (hclimbed e h))
    · exact .inr (.inl hobject)
  · exact .inr (.inl hobject)

namespace ExtendsBase

/-- Collections are met only from below. -/
theorem isBelow_collection_of_mem_classHierarchy (hbase : r.ExtendsBase) {e : Erasure}
    (h : .ofClass r.wellKnown.collection ∈ r.classHierarchy e) :
    e.isArray = false ∧ r.IsBelow e (.ofClass r.wellKnown.collection) := by
  have hne : r.wellKnown.collection ≠ r.wellKnown.enumClass ∧
      r.wellKnown.collection ≠ r.wellKnown.object := by
    rw [hbase.wellKnown]
    decide
  have hplain : e.isArray = false := by
    cases harray : e.isArray with
    | false => rfl
    | true => exact absurd h (not_mem_classHierarchy_of_isArray harray hne.1 hne.2)
  refine ⟨hplain, ?_⟩
  rcases mem_classHierarchy_cases hbase hplain h with hbelow | hscalar | henum
  · exact hbelow
  · exact absurd hscalar (hbase.not_mem_scalarLineage (by simp))
  · exact absurd (congrArg Erasure.element henum) hne.1

/-- Interfaces are interfaces, those of arrays included. -/
theorem isInterface_of_mem_interfaces (hbase : r.ExtendsBase) (hi : r.RegularInheritance)
    {e i : Erasure} (h : i ∈ r.interfaces e) : r.isInterface i = true := by
  cases harray : e.isArray with
  | false =>
    rcases exists_eq_ofClass harray with ⟨c, rfl⟩
    exact hi.interfaces c i h
  | true =>
    have hbootstrap : ∀ c ∈ [Bootstrap.wellKnown.cloneable, Bootstrap.wellKnown.serializable],
        (bootstrap.class? c).isSome = true ∧ bootstrap.isInterface (.ofClass c) = true := by
      decide
    have hmem : i ∈ [Erasure.ofClass r.wellKnown.cloneable, .ofClass r.wellKnown.serializable] := by
      simpa [interfaces, genericInterfaces, harray, rawErasure_of_head?, TypeExpr.head?,
        TypeExpr.ofClass] using h
    obtain ⟨c, hc, rfl⟩ : ∃ c ∈ [r.wellKnown.cloneable, r.wellKnown.serializable],
        i = .ofClass c := by simpa using hmem
    rw [hbase.wellKnown] at hc
    rcases hbootstrap c hc with ⟨hdeclared, hinterface⟩
    exact (hbase.hasKind_eq .interface (isBase_of_isSome hdeclared)).trans hinterface

/-- The class of enums is met only by itself and by enums. -/
theorem eq_or_isEnum_of_mem_classHierarchy (hbase : r.ExtendsBase) (hi : r.RegularInheritance)
    {e : Erasure} (h : .ofClass r.wellKnown.enumClass ∈ r.classHierarchy e) :
    e = .ofClass r.wellKnown.enumClass ∨ r.isEnum e = true := by
  have hclass : r.isInterface (.ofClass r.wellKnown.enumClass) = false := by
    rw [hbase.wellKnown, isInterface,
      hbase.hasKind_eq .interface (isBase_of_isSome (by decide))]
    decide
  have hobject : r.object ≠ .ofClass r.wellKnown.enumClass := by
    rw [object, hbase.wellKnown]
    decide
  by_cases hself : e = .ofClass r.wellKnown.enumClass
  · exact .inl hself
  refine .inr ?_
  -- the climb leaves the class out where it is a superclass, and it is no interface
  have hclimbed : .ofClass r.wellKnown.enumClass ∉
      r.climbHierarchy e.isArray r.searchSteps [r.boxed e] [r.boxed e] := by
    intro hmem
    refine forall_mem_climbHierarchy (P := (.ofClass r.wellKnown.enumClass ≠ ·)) ?_ ?_ _ hmem rfl
    · intro x c _ _ s hs
      refine ne_liftErasure ?_
      rintro rfl
      rcases mem_climbedSupertypes_iff.mp hs with hs | hs
      · simpa using (Option.filter_eq_some_iff.mp hs).2
      · exact Bool.false_ne_true (hclass.symm.trans (hbase.isInterface_of_mem_interfaces hi hs))
    · intro x hx
      rw [List.mem_singleton.mp hx]
      rcases hbase.boxed_eq_or_mem_scalarLineage e with hbox | ⟨-, hbox⟩
      · rw [hbox]
        exact Ne.symm hself
      · exact fun heq => hbase.not_mem_scalarLineage (e := .ofClass r.wellKnown.enumClass) (by simp)
          (heq ▸ hbox)
  rw [classHierarchy] at h
  rcases (mem_appendNew_iff ..).mp h with h | h
  · rcases (mem_appendNew_iff ..).mp h with h | h
    · split at h
      · assumption
      · exact absurd h hclimbed
    · exact absurd h (ne_liftErasure hobject)
  · exact absurd h.symm hobject

end ExtendsBase

end Registry

end TypeConversion
