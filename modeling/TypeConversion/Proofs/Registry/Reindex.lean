import TypeConversion.Registry.Basic
import Mathlib.Data.List.Induction
import Mathlib.Data.List.Nodup

/-!
# The index built anew

Building the index anew enters all classes under their names, one after the other, so that of the
classes of one name the last one is found.  Where the index was exact, in that it held the name of
every class with its number and nothing else, nothing changes for any name.

**Results**

* `find?_reindex`: the class that is found under a name;
* `find?_reindex_of_exact`: the one that was found before, if the index was exact;
* `isExact_reindex`: the new index is exact if no two classes have the same name.
-/

namespace TypeConversion.Registry

/-- The index holds the name of every class with its number, and nothing else. -/
def IsExact (r : Registry) : Prop :=
  ∀ name c, r.index.find? name = some c ↔ ∃ d, (c, d) ∈ r.numbered ∧ d.name = name

/-- Of the classes that are entered under one name the last one is found. -/
theorem find?_foldl_insert (classes : List (ClassId × ClassDef)) (name : String) :
    (classes.foldl (fun index (c, d) => index.insert d.name c) NameIndex.empty).find? name =
      (classes.reverse.find? (·.2.name = name)).map (·.1) := by
  induction classes using List.reverseRecOn with
  | nil => rfl
  | append_singleton classes last ih =>
    rw [List.foldl_append, List.foldl_cons, List.foldl_nil, NameIndex.find?_insert,
      List.reverse_append, List.reverse_singleton, List.singleton_append, List.find?_cons, ih]
    by_cases hname : last.2.name = name
    · simp [hname]
    · simp [hname, Ne.symm hname]

theorem find?_reindex (r : Registry) (name : String) :
    r.reindex.index.find? name = (r.numbered.reverse.find? (·.2.name = name)).map (·.1) :=
  find?_foldl_insert r.numbered name

/-- What is found in the new index is a class of that name. -/
theorem exists_of_find?_reindex {r : Registry} {name : String} {c : ClassId}
    (h : r.reindex.index.find? name = some c) : ∃ d, (c, d) ∈ r.numbered ∧ d.name = name := by
  rw [find?_reindex, Option.map_eq_some_iff] at h
  rcases h with ⟨⟨c', d⟩, hfind, rfl⟩
  have hmem := List.mem_of_find?_eq_some hfind
  have hname := List.find?_some hfind
  exact ⟨d, List.mem_reverse.mp hmem, by simpa using hname⟩

/-- Every class has its name in the new index. -/
theorem exists_find?_reindex {r : Registry} {c : ClassId} {d : ClassDef}
    (h : (c, d) ∈ r.numbered) : ∃ c', r.reindex.index.find? d.name = some c' := by
  rw [find?_reindex]
  cases hfind : r.numbered.reverse.find? (·.2.name = d.name) with
  | none =>
    have hnone := List.find?_eq_none.mp hfind (c, d) (List.mem_reverse.mpr h)
    simp at hnone
  | some found => exact ⟨found.1, rfl⟩

/-- An exact index stays what it is. -/
theorem find?_reindex_of_exact {r : Registry} (h : r.IsExact) (name : String) :
    r.reindex.index.find? name = r.index.find? name := by
  cases hnew : r.reindex.index.find? name with
  | some c => exact ((h name c).mpr (exists_of_find?_reindex hnew)).symm
  | none =>
    cases hold : r.index.find? name with
    | none => rfl
    | some c =>
      rcases (h name c).mp hold with ⟨d, hd, rfl⟩
      rcases exists_find?_reindex hd with ⟨c', hc'⟩
      rw [hnew] at hc'
      exact absurd hc' (by simp)

/-- The new index is exact if the names tell the classes apart. -/
theorem isExact_reindex {r : Registry} (h : (r.numbered.map (·.2.name)).Nodup) :
    r.reindex.IsExact := by
  intro name c
  constructor
  · exact exists_of_find?_reindex
  · rintro ⟨d, hnew, rfl⟩
    have hd : (c, d) ∈ r.numbered := hnew
    rcases exists_find?_reindex hd with ⟨c', hc'⟩
    rcases exists_of_find?_reindex hc' with ⟨d', hd', hname⟩
    have heq : (c', d') = (c, d) := List.inj_on_of_nodup_map h hd' hd hname
    rw [hc', (Prod.mk.inj heq).1]

/-- Names mean what they meant before if the index was exact. -/
theorem lookup?_reindex_of_exact {r : Registry} (h : r.IsExact) (name : String) :
    r.reindex.lookup? name = r.lookup? name := by
  rw [lookup?, lookup?, find?_reindex_of_exact h, find?_reindex_of_exact h]

end TypeConversion.Registry
