import TypeConversion.Proofs.Dispatch.Registered

/-!
# The hierarchies of bootstrap classes

A registry that extends the bootstrap registry has more classes, and so its climbs may take more
steps; but from a bootstrap class they go the way they do in the bootstrap registry, where there are
steps enough.  The hierarchy of an array has nothing but arrays, and then the top class.

**Results**

* `ExtendsBase.classHierarchy_eq`: bootstrap classes keep their hierarchies;
* `exists_classHierarchy_of_isArray`: the hierarchies of arrays.
-/

namespace TypeConversion

namespace Registry

variable {r : Registry}

namespace ExtendsBase

/-! ## Climbs from bootstrap classes -/

theorem isBase_boxed (hbase : r.ExtendsBase) {e : Erasure} (he : IsBase e) :
    IsBase (r.boxed e) := by
  rcases hbase.boxed_eq_or_mem_scalarLineage e with hself | ⟨-, hbox⟩
  · rwa [hself]
  · rcases isLineage_scalarLineage _ hbox with ⟨hplain, hdeclared, -, -⟩
    rcases exists_eq_ofClass hplain with ⟨c, hc⟩
    rw [hc] at hdeclared ⊢
    exact isBase_of_isSome (c := c) hdeclared

theorem climbStep_eq (hbase : r.ExtendsBase) {e : Erasure} (he : IsBase e)
    (queue met : List Erasure) :
    r.climbStep false e queue met = bootstrap.climbStep false e queue met := by
  have hsuper : r.climbedSuperclass? e = bootstrap.climbedSuperclass? e := by
    rw [climbedSuperclass?, climbedSuperclass?, (hbase.superclass?_eq he).1, object,
      hbase.wellKnown]
    rfl
  rw [climbStep, climbStep, hsuper, (hbase.interfaces_eq he).1]

/-- A climb from bootstrap classes goes the way it does in the bootstrap registry. -/
theorem climbAs_eq (hbase : r.ExtendsBase) (steps : Nat) (queue met : List Erasure)
    (hqueue : ∀ e ∈ queue, IsBase e) :
    r.climbAs r.boxed steps queue met = bootstrap.climbAs bootstrap.boxed steps queue met := by
  induction steps generalizing queue met with
  | zero => rfl
  | succ steps ih =>
    cases queue with
    | nil => rfl
    | cons e queue =>
      rcases List.forall_mem_cons.mp hqueue with ⟨he, hrest⟩
      have hbox := hbase.isBase_boxed he
      have hnext : ∀ x ∈ (r.climbStep false (r.boxed e) queue met).1, IsBase x := by
        intro x hx
        rcases mem_climbStep hx with hx | ⟨s, hs, hx⟩
        · exact hrest x hx
        · have hx : x = s := hx
          exact hx ▸ (hbase.supertypes_eq hbox).2 s (climbedSupertypes_subset _ hs)
      rw [climbAs, climbAs, ih _ _ hnext, hbase.climbStep_eq hbox, hbase.boxed_eq]

/-- The bootstrap classes come first. -/
theorem classes_prefix (hbase : r.ExtendsBase) :
    bootstrap.classes.toList <+: r.classes.toList := by
  rw [List.prefix_iff_getElem?]
  intro i hi
  have hsmall : i < 37 := hi
  have hindex : i.toUInt32.toNat = i :=
    UInt32.toNat_ofNat_of_lt' (hsmall.trans (by decide))
  have hd : bootstrap.class? ⟨i.toUInt32⟩ = some bootstrap.classes.toList[i] := by
    rw [class?, hindex, ← Array.getElem?_toList, List.getElem?_eq_getElem hi]
    rfl
  have hkept := hbase.classes _ _ hd
  rwa [class?, hindex, ← Array.getElem?_toList] at hkept

theorem supertypeCount_le (hbase : r.ExtendsBase) :
    bootstrap.supertypeCount ≤ r.supertypeCount := by
  rw [supertypeCount_eq, supertypeCount_eq]
  exact (hbase.classes_prefix.sublist.map _).sum_le_sum (fun _ _ => Nat.zero_le _)

/-- Bootstrap classes keep their hierarchies. -/
theorem classHierarchy_eq (hbase : r.ExtendsBase) {e : Erasure} (he : IsBase e) :
    r.classHierarchy e = bootstrap.classHierarchy e := by
  have hplain : e.isArray = false := by
    rcases he with ⟨c, d, rfl, -⟩
    rfl
  have hkinded : bootstrap.KindedInheritance := kindedInheritance_of_check (by decide +kernel)
  have hstart : (bootstrap.boxed e).isArray = false := isArray_boxed _ hplain
  have hsteps : ∀ steps, bootstrap.supertypeCount < steps →
      bootstrap.climbAs bootstrap.boxed steps [bootstrap.boxed e] [bootstrap.boxed e] =
        (bootstrap.discovery bootstrap.boxed bootstrap.supertypeCount
          (bootstrap.boxed e)).eraseDups :=
    fun steps h => (climbAs_eq_discovery_of_lt hkinded.climb_boxed hstart (Nat.le_refl _) h).1
  have hle := hbase.supertypeCount_le
  have hclimb : r.climbHierarchy false r.searchSteps [r.boxed e] [r.boxed e] =
      bootstrap.climbHierarchy false bootstrap.searchSteps [bootstrap.boxed e]
        [bootstrap.boxed e] := by
    rw [climbHierarchy_false, climbHierarchy_false, ← hbase.boxed_eq,
      hbase.climbAs_eq _ _ _ (by simpa using hbase.isBase_boxed he), hbase.boxed_eq,
      hsteps _ (by rw [searchSteps]; omega), hsteps _ (by rw [searchSteps]; omega)]
  rw [classHierarchy, classHierarchy, hplain, hclimb, isEnum, hbase.hasKind_eq _ he, object,
    hbase.wellKnown]
  rfl

end ExtendsBase

/-! ## Arrays -/

theorem isArray_of_mem_climbHierarchy {steps : Nat} {queue met : List Erasure}
    (hqueue : ∀ e ∈ queue, e.isArray = true) :
    ∀ e ∈ r.climbHierarchy true steps queue met, e.isArray = true := by
  intro e he
  refine forall_mem_climbHierarchy (P := fun x => x.isArray = true) ?_ hqueue e he
  intro _ _ _ _ s _
  exact isArray_array s

/-- The hierarchy of an array: arrays, among them that of the top class, and then the top class. -/
theorem exists_classHierarchy_of_isArray {e : Erasure} (h : e.isArray = true) :
    ∃ entries, r.classHierarchy e = entries ++ [r.object] ∧ r.object.array ∈ entries ∧
      ∀ x ∈ entries, x.isArray = true := by
  have henum : r.isEnum e = false := by simp [isEnum, hasKind, h]
  have hbox : r.boxed e = e := by simp [boxed, Erasure.asClass?, h]
  have hclimbed : ∀ x ∈ r.climbHierarchy true r.searchSteps [e] [e], x.isArray = true :=
    isArray_of_mem_climbHierarchy (by simpa using h)
  have hentries : ∀ x ∈ appendNew (r.climbHierarchy true r.searchSteps [e] [e]) r.object.array,
      x.isArray = true := by
    intro x hx
    rcases (mem_appendNew_iff ..).mp hx with hx | rfl
    · exact hclimbed x hx
    · exact isArray_array _
  have hobject : r.object ∉ appendNew (r.climbHierarchy true r.searchSteps [e] [e])
      r.object.array := by
    intro hmem
    exact absurd (hentries _ hmem) (by simp [object])
  refine ⟨_, ?_, (mem_appendNew_iff ..).mpr (.inr rfl), hentries⟩
  rw [classHierarchy, h, henum, hbox]
  simp only [liftErasure, if_true, Bool.false_eq_true, if_false]
  rw [appendNew, if_neg (by simpa using hobject)]

end Registry

end TypeConversion
