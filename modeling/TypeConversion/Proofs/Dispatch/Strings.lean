import TypeConversion.Builtin.CollectionClass
import TypeConversion.Proofs.Dispatch.Hierarchy
import TypeConversion.Proofs.Registry.Subclass

/-!
# What is above strings

The string class keeps its supertypes in every registry that extends the bootstrap registry, and so
do these.  Neither the class of enums nor that of collections is among them; so no converter into
one of the two is found for strings, and no collection is built for them.
-/

namespace TypeConversion

namespace Registry

variable {r : Registry}

/-- Bootstrap classes with their boxes and all that is above them. -/
def IsLineage (entries : List Erasure) : Prop :=
  ∀ e ∈ entries, e.isArray = false ∧ (bootstrap.class? e.element).isSome = true ∧
    bootstrap.boxed e ∈ entries ∧ ∀ s ∈ bootstrap.supertypes e, s ∈ entries

/-- The string class, and all that is above it. -/
def stringLineage : List Erasure :=
  [Bootstrap.wellKnown.string, Bootstrap.wellKnown.serializable, Bootstrap.wellKnown.comparable,
    Bootstrap.wellKnown.charSequence, Bootstrap.wellKnown.object].map .ofClass

theorem isLineage_stringLineage : IsLineage stringLineage := by
  unfold IsLineage
  decide

namespace ExtendsBase

section Lineage

variable {entries : List Erasure} (hbase : r.ExtendsBase) (hentries : IsLineage entries)

include hbase hentries

/-- The lineage of bootstrap classes is what it was. -/
theorem mem_lineage_of_mem_supertypes {e s : Erasure} (he : e ∈ entries)
    (hs : s ∈ r.supertypes e) : s ∈ entries := by
  rcases hentries e he with ⟨harray, hdeclared, -, hclosed⟩
  rcases exists_eq_ofClass harray with ⟨c, rfl⟩
  rw [(hbase.supertypes_eq (isBase_of_isSome (c := c) hdeclared)).1] at hs
  exact hclosed s hs

/-- A climb from a lineage stays in it. -/
theorem mem_lineage_of_mem_classHierarchy {target e : Erasure} (htarget : target ∈ entries)
    (hobject : r.object ∈ entries) (henum : r.isEnum target = false)
    (h : e ∈ r.classHierarchy target) : e ∈ entries := by
  have hboxed : ∀ x ∈ entries, r.boxed x ∈ entries := fun x hx => by
    rw [hbase.boxed_eq]
    exact (hentries x hx).2.2.1
  rw [classHierarchy, henum, (hentries target htarget).1] at h
  simp only [liftErasure, Bool.false_eq_true, if_false] at h
  rcases (mem_appendNew_iff ..).mp h with h | rfl
  · rcases (mem_appendNew_iff ..).mp h with h | rfl
    · refine forall_mem_climbHierarchy (P := (· ∈ entries)) ?_ ?_ e h
      · intro x c hx hc s hs
        obtain rfl : r.boxed x = c := by simpa [climbingEntry] using hc
        have hs := climbedSupertypes_subset _ hs
        simpa [liftErasure] using
          hbase.mem_lineage_of_mem_supertypes hentries (hboxed x hx) hs
      · simpa using hboxed target htarget
    · exact hobject
  · exact hobject

/-- What the types of a lineage are below is in the lineage. -/
theorem mem_lineage_of_isSubclass {target e : Erasure} (htarget : target.isArray = false)
    (hobject : r.object ∈ entries) (he : e ∈ entries) (h : r.isSubclass target e = true) :
    target ∈ entries := by
  rcases (isSubclass_iff_of_classes htarget (hentries e he).1).mp h with rfl | ⟨-, -, rfl | hbelow⟩
  · exact he
  · exact hobject
  · exact mem_of_isBelow (fun _ ha _ => hbase.mem_lineage_of_mem_supertypes hentries ha) he hbelow

end Lineage

/-- Boxes are not above strings. -/
theorem not_mem_stringLineage_of_mem_boxes (hbase : r.ExtendsBase) {f : ClassId}
    (hf : f ∈ r.wellKnown.boxes.map (·.2)) : .ofClass f ∉ stringLineage := by
  have hbootstrap : ∀ f ∈ Bootstrap.wellKnown.boxes.map (·.2), .ofClass f ∉ stringLineage := by
    decide
  rw [hbase.wellKnown] at hf
  exact hbootstrap f hf

/-- Neither numbers, enums and collections nor arrays are above strings. -/
theorem not_mem_stringLineage (hbase : r.ExtendsBase) {e : Erasure}
    (he : e ∈ [.ofClass r.wellKnown.number, .ofClass r.wellKnown.enumClass,
      .ofClass r.wellKnown.collection, r.object.array]) : e ∉ stringLineage := by
  have hbootstrap : ∀ e ∈ [.ofClass Bootstrap.wellKnown.number,
      .ofClass Bootstrap.wellKnown.enumClass, .ofClass Bootstrap.wellKnown.collection,
      (Erasure.ofClass Bootstrap.wellKnown.object).array], e ∉ stringLineage := by decide
  rw [object, hbase.wellKnown] at he
  exact hbootstrap e he

theorem object_mem_stringLineage (hbase : r.ExtendsBase) : r.object ∈ stringLineage := by
  rw [object, hbase.wellKnown]
  decide

theorem string_mem_stringLineage (hbase : r.ExtendsBase) :
    .ofClass r.wellKnown.string ∈ stringLineage := by
  rw [hbase.wellKnown]
  exact List.mem_cons_self

/-- Strings have no other ancestors. -/
theorem mem_stringLineage_of_isBelow (hbase : r.ExtendsBase) {e : Erasure}
    (h : r.IsBelow (.ofClass r.wellKnown.string) e) : e ∈ stringLineage :=
  mem_of_isBelow (fun _ ha _ => hbase.mem_lineage_of_mem_supertypes isLineage_stringLineage ha)
    hbase.string_mem_stringLineage h

/-- What is above strings is boxed as itself. -/
theorem boxed_of_mem_stringLineage (hbase : r.ExtendsBase) {e : Erasure}
    (he : e ∈ stringLineage) : r.boxed e = e := by
  have hbootstrap : ∀ e ∈ stringLineage, bootstrap.boxed e = e := by decide
  exact (hbase.boxed_eq e).trans (hbootstrap e he)

theorem isEnum_string (hbase : r.ExtendsBase) :
    r.isEnum (.ofClass r.wellKnown.string) = false := by
  rw [hbase.wellKnown, isEnum,
    hbase.hasKind_eq .enumeration (isBase_of_isSome (by decide))]
  decide

/-- A hierarchy of strings meets only what is above strings. -/
theorem mem_stringLineage_of_mem_classHierarchy (hbase : r.ExtendsBase) {e : Erasure}
    (h : e ∈ r.classHierarchy (.ofClass r.wellKnown.string)) : e ∈ stringLineage :=
  hbase.mem_lineage_of_mem_classHierarchy isLineage_stringLineage
    hbase.string_mem_stringLineage hbase.object_mem_stringLineage hbase.isEnum_string h

/-- Strings are met only where they are looked for. -/
theorem eq_string_of_mem_classHierarchy (hbase : r.ExtendsBase) (hi : r.RegularInheritance)
    {e : Erasure} (h : .ofClass r.wellKnown.string ∈ r.classHierarchy e) :
    e = .ofClass r.wellKnown.string := by
  have hboxed := boxed_eq_of_mem_classHierarchy hbase hi List.mem_cons_self h
  rcases eq_or_mem_boxes_of_boxed hboxed with heq | ⟨p, -, hmem⟩
  · exact heq
  · have hnot := hbase.not_mem_stringLineage_of_mem_boxes (List.mem_map.mpr ⟨_, hmem, rfl⟩)
    exact absurd hbase.string_mem_stringLineage hnot

/-- Strings are no collections. -/
theorem isSubclass_collection_string (hbase : r.ExtendsBase) :
    r.isSubclass (.ofClass r.wellKnown.collection) (.ofClass r.wellKnown.string) = false := by
  rw [← Bool.not_eq_true]
  have hcollection : .ofClass r.wellKnown.collection ∉ stringLineage :=
    hbase.not_mem_stringLineage (by simp)
  exact fun h => hcollection (hbase.mem_lineage_of_isSubclass isLineage_stringLineage rfl
    hbase.object_mem_stringLineage hbase.string_mem_stringLineage h)

/-- No collection is built for strings. -/
theorem collectionClass_string (hbase : r.ExtendsBase) (c : ClassId) :
    r.collectionClass (.ofClass r.wellKnown.string) ≠ .ok c := by
  have hinterface : r.isInterface (.ofClass r.wellKnown.string) = false := by
    rw [hbase.wellKnown, isInterface,
      hbase.hasKind_eq .interface (isBase_of_isSome (by decide))]
    decide
  simp [collectionClass, hinterface, hbase.isSubclass_collection_string]

end ExtendsBase

end Registry

end TypeConversion
