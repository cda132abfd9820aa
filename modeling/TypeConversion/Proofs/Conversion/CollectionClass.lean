import TypeConversion.Proofs.Conversion.Element
import TypeConversion.Proofs.Dispatch.Strings

/-!
# The classes of collections

A collection is built as the class that is asked for, or as an array list or a linked hash set where
that is an interface.  The ancestors of these two are the same in every registry that extends the
bootstrap registry.  So whatever is built can be used as what was asked for, with one exception: an
interface that is declared below lists or sets is not among those ancestors, and yet the one or the
other class is taken for it.

**Results**

* `collectionClass_cases`: the classes that there are to choose from;
* `createCollection_eq_ok_iff`: what is built as a class;
* `ExtendsBase.createCollection_of_not_set`: what is no set is built with all its elements;
* `ExtendsBase.isSubclass_collectionClass_iff`: where the class is a subclass of what was asked for;
* `collections_usable_iff`: so it is for the collections that are built;
* `arrayList_not_ranking`: the exception.
-/

namespace TypeConversion

namespace Registry

variable {r : Registry}

/-- The class of a collection is one of two, or else the class that is asked for. -/
theorem collectionClass_cases {e : Erasure} {c : ClassId} (h : r.collectionClass e = .ok c) :
    e.isArray = false ∧
      (r.isInterface e = true ∧ r.isSubclass (.ofClass r.wellKnown.set) e = true ∧
          c = r.wellKnown.linkedHashSet ∨
        r.isInterface e = true ∧ r.isSubclass (.ofClass r.wellKnown.set) e = false ∧
          (r.isSubclass (.ofClass r.wellKnown.list) e = true ∨
            e = .ofClass r.wellKnown.collection ∨ e = .ofClass r.wellKnown.iterable) ∧
          c = r.wellKnown.arrayList ∨
        r.isInterface e = false ∧ e = .ofClass c) := by
  cases hk : e.asClass? with
  | none => simp [collectionClass, hk] at h
  | some k =>
    obtain rfl : e = .ofClass k := Erasure.eq_ofClass_of_asClass? hk
    refine ⟨rfl, ?_⟩
    simp only [collectionClass, Erasure.asClass?_ofClass] at h
    cases hinterface : r.isInterface (.ofClass k) with
    | false =>
      rw [hinterface, if_neg Bool.false_ne_true] at h
      split at h
      · exact .inr (.inr ⟨rfl, congrArg Erasure.ofClass (Except.ok.inj h)⟩)
      · simp at h
    | true =>
      rw [hinterface, if_pos rfl] at h
      cases hset : r.isSubclass (.ofClass r.wellKnown.set) (.ofClass k) with
      | true =>
        rw [hset, if_pos rfl] at h
        exact .inl ⟨rfl, rfl, (Except.ok.inj h).symm⟩
      | false =>
        rw [hset, if_neg Bool.false_ne_true] at h
        split at h
        · rename_i hbelow
          refine .inr (.inl ⟨rfl, rfl, ?_, (Except.ok.inj h).symm⟩)
          simpa [or_assoc, Erasure.ofClass] using hbelow
        · simp at h

/-- What is kept of a list was in it. -/
theorem mem_of_mem_keepFirst {e : Option Value} {kept elements : List (Option Value)}
    (h : e ∈ keepFirst kept elements) : e ∈ elements := by
  induction elements generalizing kept with
  | nil => simp [keepFirst] at h
  | cons element rest ih =>
    rw [keepFirst] at h
    split at h
    · exact List.mem_cons_of_mem _ (ih h)
    · rcases List.mem_cons.mp h with rfl | h
      · exact List.mem_cons_self
      · exact List.mem_cons_of_mem _ (ih h)

/-- A collection is of the class for the type; only sets leave elements out. -/
theorem createCollection_eq_ok_iff {e : Erasure} {elements : List (Option Value)} {v : Value} :
    r.createCollection e elements = .ok v ↔
      ∃ c, r.collectionClass e = .ok c ∧
        v = .collection c (if r.isSubclass (.ofClass r.wellKnown.set) (.ofClass c) then
          keepFirst [] elements else elements) := by
  cases hc : r.collectionClass e with
  | error fault => simp [createCollection, hc, bind, Except.bind]
  | ok c =>
    simp only [createCollection, hc, bind, Except.bind, Except.ok.injEq, exists_eq_left']
    split <;> simp [pure, Except.pure, eq_comm]

/-- A collection is of the class for the type, and has no other elements than those given. -/
theorem exists_of_createCollection {e : Erasure} {elements : List (Option Value)} {v : Value}
    (h : r.createCollection e elements = .ok v) :
    ∃ c kept, r.collectionClass e = .ok c ∧ v = .collection c kept ∧
      ∀ x ∈ kept, x ∈ elements := by
  rcases createCollection_eq_ok_iff.mp h with ⟨c, hc, rfl⟩
  refine ⟨c, _, hc, rfl, fun x hx => ?_⟩
  split at hx
  · exact mem_of_mem_keepFirst hx
  · exact hx

/-! ## Lineages -/

/-- Array lists, and all that is above them. -/
def listLineage : List Erasure :=
  [Bootstrap.wellKnown.arrayList, Bootstrap.abstractList, Bootstrap.abstractCollection,
    Bootstrap.wellKnown.list, Bootstrap.wellKnown.collection, Bootstrap.wellKnown.iterable,
    Bootstrap.wellKnown.cloneable, Bootstrap.wellKnown.serializable,
    Bootstrap.wellKnown.object].map .ofClass

theorem isLineage_listLineage : IsLineage listLineage := by
  unfold IsLineage
  decide

/-- Linked hash sets, and all that is above them. -/
def setLineage : List Erasure :=
  [Bootstrap.wellKnown.linkedHashSet, Bootstrap.wellKnown.hashSet, Bootstrap.abstractSet,
    Bootstrap.abstractCollection, Bootstrap.wellKnown.set, Bootstrap.wellKnown.collection,
    Bootstrap.wellKnown.iterable, Bootstrap.wellKnown.cloneable, Bootstrap.wellKnown.serializable,
    Bootstrap.wellKnown.object].map .ofClass

theorem isLineage_setLineage : IsLineage setLineage := by
  unfold IsLineage
  decide

namespace ExtendsBase

section

variable (hbase : r.ExtendsBase)

include hbase

theorem mem_listLineage_of_isSubclass {target e : Erasure} (htarget : target.isArray = false)
    (he : e ∈ listLineage) (h : r.isSubclass target e = true) : target ∈ listLineage := by
  refine hbase.mem_lineage_of_isSubclass isLineage_listLineage htarget ?_ he h
  rw [object, hbase.wellKnown]
  decide

theorem mem_setLineage_of_isSubclass {target e : Erasure} (htarget : target.isArray = false)
    (he : e ∈ setLineage) (h : r.isSubclass target e = true) : target ∈ setLineage := by
  refine hbase.mem_lineage_of_isSubclass isLineage_setLineage htarget ?_ he h
  rw [object, hbase.wellKnown]
  decide

/-- Sets are not above lists. -/
theorem isSubclass_set {e : Erasure} (he : e ∈ listLineage) :
    r.isSubclass (.ofClass r.wellKnown.set) e = false := by
  rw [← Bool.not_eq_true]
  intro h
  have hmem := hbase.mem_listLineage_of_isSubclass rfl he h
  rw [hbase.wellKnown] at hmem
  exact absurd hmem (by decide)

/-- Lists are not above sets. -/
theorem isSubclass_list {e : Erasure} (he : e ∈ setLineage) :
    r.isSubclass (.ofClass r.wellKnown.list) e = false := by
  rw [← Bool.not_eq_true]
  intro h
  have hmem := hbase.mem_setLineage_of_isSubclass rfl he h
  rw [hbase.wellKnown] at hmem
  exact absurd hmem (by decide)

/-- The bootstrap classes in a lineage are interfaces as they are in the bootstrap registry. -/
theorem isInterface_of_isLineage {entries : List Erasure} (hentries : IsLineage entries)
    {e : Erasure} (he : e ∈ entries) (h : r.isInterface e = true) :
    bootstrap.isInterface e = true := by
  rcases hentries e he with ⟨harray, hdeclared, -, -⟩
  rcases exists_eq_ofClass harray with ⟨c, rfl⟩
  exact (hbase.hasKind_eq .interface (isBase_of_isSome (c := c) hdeclared)).symm.trans h

/-! ## Classes that can be used -/

/-- The only interface of lists that array lists implement is that of lists itself. -/
theorem isSubclass_arrayList_iff {e : Erasure} (hinterface : r.isInterface e = true)
    (hbelow : r.isSubclass (.ofClass r.wellKnown.list) e = true) :
    r.isSubclass e (.ofClass r.wellKnown.arrayList) = true ↔ e = .ofClass r.wellKnown.list := by
  have hinterfaces : ∀ e ∈ listLineage, bootstrap.isInterface e = true →
      e = .ofClass Bootstrap.wellKnown.list ∨ e ∈ setLineage := by decide
  constructor
  · intro habove
    have hmem : e ∈ listLineage := by
      refine hbase.mem_listLineage_of_isSubclass (isArray_of_hasKind hinterface) ?_ habove
      rw [hbase.wellKnown]
      decide
    rcases hinterfaces e hmem (hbase.isInterface_of_isLineage isLineage_listLineage hmem hinterface)
      with heq | hset
    · rw [hbase.wellKnown]
      exact heq
    · exact absurd (hbelow.symm.trans (hbase.isSubclass_list hset)) (by decide)
  · rintro rfl
    exact hbase.isSubclass_collections.1

/-- The only interface of sets that linked hash sets implement is that of sets itself. -/
theorem isSubclass_linkedHashSet_iff {e : Erasure} (hinterface : r.isInterface e = true)
    (hbelow : r.isSubclass (.ofClass r.wellKnown.set) e = true) :
    r.isSubclass e (.ofClass r.wellKnown.linkedHashSet) = true ↔
      e = .ofClass r.wellKnown.set := by
  have hinterfaces : ∀ e ∈ setLineage, bootstrap.isInterface e = true →
      e = .ofClass Bootstrap.wellKnown.set ∨ e ∈ listLineage := by decide
  constructor
  · intro habove
    have hmem : e ∈ setLineage := by
      refine hbase.mem_setLineage_of_isSubclass (isArray_of_hasKind hinterface) ?_ habove
      rw [hbase.wellKnown]
      decide
    rcases hinterfaces e hmem (hbase.isInterface_of_isLineage isLineage_setLineage hmem hinterface)
      with heq | hlist
    · rw [hbase.wellKnown]
      exact heq
    · exact absurd (hbelow.symm.trans (hbase.isSubclass_set hlist)) (by decide)
  · rintro rfl
    exact hbase.isSubclass_collections.2.2.2

/-- Neither lists nor sets are above collections and what these extend. -/
theorem not_isSubInterface_of_mem {e : Erasure} (hlist : e ∈ listLineage) (hset : e ∈ setLineage) :
    ¬r.IsSubInterface e := by
  rintro ⟨-, ⟨-, h⟩ | ⟨-, h⟩⟩
  · exact absurd (h.symm.trans (hbase.isSubclass_list hset)) (by decide)
  · exact absurd (h.symm.trans (hbase.isSubclass_set hlist)) (by decide)

/--
The class that a collection is built as is a subclass of what was asked for, unless that is an
interface below lists or sets.
-/
theorem isSubclass_collectionClass_iff {e : Erasure} {c : ClassId}
    (h : r.collectionClass e = .ok c) :
    r.isSubclass e (.ofClass c) = true ↔ ¬r.IsSubInterface e := by
  rcases (collectionClass_cases h).2 with
    ⟨hinterface, hset, rfl⟩ | ⟨hinterface, hset, hlist | rfl | rfl, rfl⟩ | ⟨hclass, rfl⟩
  · have hself : e = .ofClass r.wellKnown.set → r.isSubclass (.ofClass r.wellKnown.list) e = false :=
      fun heq => hbase.isSubclass_list (by rw [heq, hbase.wellKnown]; decide)
    rw [hbase.isSubclass_linkedHashSet_iff hinterface hset]
    constructor
    · rintro heq ⟨-, ⟨-, h⟩ | ⟨hne, -⟩⟩
      · exact absurd (h.symm.trans (hself heq)) (by decide)
      · exact hne heq
    · intro hnot
      by_contra hne
      exact hnot ⟨hinterface, .inr ⟨hne, hset⟩⟩
  · rw [hbase.isSubclass_arrayList_iff hinterface hlist]
    constructor
    · rintro heq ⟨-, ⟨hne, -⟩ | ⟨-, h⟩⟩
      · exact hne heq
      · exact absurd (h.symm.trans hset) (by decide)
    · intro hnot
      by_contra hne
      exact hnot ⟨hinterface, .inl ⟨hne, hlist⟩⟩
  · refine iff_of_true hbase.isSubclass_collections.2.1 (hbase.not_isSubInterface_of_mem ?_ ?_)
    all_goals
      rw [hbase.wellKnown]
      decide
  · refine iff_of_true hbase.isSubclass_collections.2.2.1 (hbase.not_isSubInterface_of_mem ?_ ?_)
    all_goals
      rw [hbase.wellKnown]
      decide
  · exact iff_of_true (r.isSubclass_self _) fun hsub =>
      Bool.false_ne_true (hclass.symm.trans hsub.1)

/-- A collection that is no set is built of all its elements. -/
theorem createCollection_of_not_set {e : Erasure}
    (hset : r.isSubclass (.ofClass r.wellKnown.set) e = false) {elements : List (Option Value)}
    {v : Value} (h : r.createCollection e elements = .ok v) :
    ∃ c, r.collectionClass e = .ok c ∧ v = .collection c elements := by
  rcases createCollection_eq_ok_iff.mp h with ⟨c, hc, rfl⟩
  have hkept : r.isSubclass (.ofClass r.wellKnown.set) (.ofClass c) = false := by
    rcases (collectionClass_cases hc).2 with ⟨-, hset', -⟩ | ⟨-, -, -, rfl⟩ | ⟨-, rfl⟩
    · exact absurd (hset.symm.trans hset') (by decide)
    · exact hbase.isSubclass_set (by rw [hbase.wellKnown]; decide)
    · exact hset
  exact ⟨c, hc, by rw [hkept, if_neg Bool.false_ne_true]⟩

/-- Where a list is asked for, an array list is built, with all elements. -/
theorem createCollection_list (elements : List (Option Value)) :
    r.createCollection (.ofClass r.wellKnown.list) elements =
      .ok (.collection r.wellKnown.arrayList elements) := by
  have hinterface : r.isInterface (.ofClass r.wellKnown.list) = true := by
    rw [hbase.wellKnown, isInterface, hbase.hasKind_eq _ (isBase_of_isSome rfl)]
    rfl
  have hset : r.isSubclass (.ofClass r.wellKnown.set) (.ofClass r.wellKnown.list) = false :=
    hbase.isSubclass_set (by rw [hbase.wellKnown]; decide)
  have hset' : r.isSubclass (.ofClass r.wellKnown.set) (.ofClass r.wellKnown.arrayList) = false :=
    hbase.isSubclass_set (by rw [hbase.wellKnown]; decide)
  have hclass : r.collectionClass (.ofClass r.wellKnown.list) = .ok r.wellKnown.arrayList := by
    simp [collectionClass, hinterface, hset]
  exact createCollection_eq_ok_iff.mpr ⟨_, hclass, by simp [hset']⟩

end

end ExtendsBase

/--
A collection that is built for a type, and the class that it is built as, can be used as that type,
unless the type is an interface below lists or sets.
-/
theorem collections_usable_iff (hbase : r.ExtendsBase) (t : Erasure) :
    (∀ c, r.collectionClass t = .ok c →
      (r.isSubclass t (.ofClass c) = true ↔ ¬r.IsSubInterface t)) ∧
    ∀ elements v, r.createCollection t elements = .ok v →
      (r.isSubclass t (v.erasure r) = true ↔ ¬r.IsSubInterface t) := by
  refine ⟨fun c => hbase.isSubclass_collectionClass_iff, fun elements v h => ?_⟩
  rcases createCollection_eq_ok_iff.mp h with ⟨c, hc, rfl⟩
  exact hbase.isSubclass_collectionClass_iff hc

/-- A registry with an interface of rankings, which are lists of strings. -/
def rankings : Registry :=
  bootstrap.push
    { name := "Ranking", kind := .interface,
      interfaces := [.parameterized Bootstrap.wellKnown.list [.ofClass Bootstrap.wellKnown.string]
        none] }

/-- An array list is built for rankings, and for lists, of which rankings are some. -/
theorem collections_usable_iff_rankings :
    rankings.ExtendsBase ∧
      rankings.collectionClass (.ofClass ⟨37⟩) = .ok rankings.wellKnown.arrayList ∧
      (rankings.isSubclass (.ofClass ⟨37⟩) (.ofClass rankings.wellKnown.arrayList) = true ↔
        ¬rankings.IsSubInterface (.ofClass ⟨37⟩)) ∧
      rankings.createCollection (.ofClass rankings.wellKnown.list) [none] =
        .ok (.collection rankings.wellKnown.arrayList [none]) ∧
      (rankings.isSubclass (.ofClass rankings.wellKnown.list)
          (.ofClass rankings.wellKnown.arrayList) = true ↔
        ¬rankings.IsSubInterface (.ofClass rankings.wellKnown.list)) := by
  have hbase : rankings.ExtendsBase := extendsBase_bootstrap.push _
  have hclass : rankings.collectionClass (.ofClass ⟨37⟩) = .ok rankings.wellKnown.arrayList := by
    decide +kernel
  have hlist := hbase.createCollection_list [none]
  exact ⟨hbase, hclass, (collections_usable_iff hbase _).1 _ hclass, hlist,
    (collections_usable_iff hbase _).2 _ _ hlist⟩

/-- An array list is built for rankings, and is none. -/
theorem arrayList_not_ranking :
    rankings.ExtendsBase ∧
      rankings.collectionClass (.ofClass ⟨37⟩) = .ok rankings.wellKnown.arrayList ∧
      rankings.isSubclass (.ofClass ⟨37⟩) (.ofClass rankings.wellKnown.arrayList) = false ∧
      ∃ v, rankings.createCollection (.ofClass ⟨37⟩) [] = .ok v ∧
        rankings.isSubclass (.ofClass ⟨37⟩) (v.erasure rankings) = false := by
  have hclass : rankings.collectionClass (.ofClass ⟨37⟩) = .ok rankings.wellKnown.arrayList := by
    decide +kernel
  have hnot : rankings.isSubclass (.ofClass ⟨37⟩) (.ofClass rankings.wellKnown.arrayList) =
      false := by
    decide +kernel
  exact ⟨extendsBase_bootstrap.push _, hclass, hnot, _,
    createCollection_eq_ok_iff.mpr ⟨_, hclass, rfl⟩, hnot⟩

end Registry

end TypeConversion
