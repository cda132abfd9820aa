import TypeConversion.Proofs.Registry.Base
import Mathlib.Algebra.GroupWithZero.Nat
import Mathlib.Algebra.Order.BigOperators.Group.List
import Mathlib.Algebra.Order.Group.Nat

/-!
# The search for an ancestor

The search goes breadth first through the supertypes and keeps the erasures that it has visited, so
it ends in any graph; but it is given a number of steps, and that number has to be enough.

**Bound.**  A visited erasure puts its supertypes into the queue once.  A class has at most as many
of them as it declares, and one more; an array has three, and the only arrays that are met are those
that stand as supertypes of classes, so there are no more of these than classes declare supertypes.
What all erasures that are not yet visited may still put into the queue is `outstanding`; with the
length of the queue it goes down with every step.

**Results**

* `exists_of_reaches`: what is reached is an ancestor of an entry of the queue;
* `reaches_of_outstanding_lt`: with enough steps every ancestor is reached;
* `reaches_iff`: from a class, the steps there are suffice.
-/

namespace TypeConversion

namespace Registry

/-- The one erasure has the other as a direct supertype. -/
def HasParent (r : Registry) (e parent : Erasure) : Prop := parent ∈ r.supertypes e

/-- The one erasure is the other or has it as an ancestor. -/
def IsBelow (r : Registry) : Erasure → Erasure → Prop := Relation.ReflTransGen r.HasParent

/-- Entries that hold the supertypes of each other hold the ancestors of each other. -/
theorem mem_of_isBelow {r : Registry} {entries : List Erasure}
    (hclosed : ∀ a ∈ entries, ∀ s ∈ r.supertypes a, s ∈ entries) {e a : Erasure}
    (he : e ∈ entries) (h : r.IsBelow e a) : a ∈ entries := by
  induction h with
  | refl => exact he
  | tail _ hstep ih => exact hclosed _ ih _ hstep

/-! ## Soundness -/

theorem exists_of_reaches {r : Registry} {target : Erasure} {steps : Nat}
    {queue visited : List Erasure} (h : r.reaches target steps queue visited = true) :
    ∃ e ∈ queue, r.IsBelow e target := by
  induction steps generalizing queue visited with
  | zero => simp [reaches] at h
  | succ steps ih =>
    cases queue with
    | nil => simp [reaches] at h
    | cons e queue =>
      rw [reaches] at h
      split at h
      · rcases ih h with ⟨a, ha, hbelow⟩
        exact ⟨a, List.mem_cons_of_mem _ ha, hbelow⟩
      · split at h
        · rename_i htarget
          exact ⟨e, List.mem_cons_self, htarget ▸ .refl⟩
        · rcases ih h with ⟨a, ha, hbelow⟩
          rcases List.mem_append.mp ha with ha | ha
          · exact ⟨a, List.mem_cons_of_mem _ ha, hbelow⟩
          · exact ⟨e, List.mem_cons_self, hbelow.head ha⟩

/-! ## What may be put into the queue -/

/-- The erasures of the supertypes that classes name. -/
def namedSupertypes (r : Registry) : List Erasure :=
  r.classes.toList.flatMap fun d => (d.superClass.toList ++ d.interfaces).filterMap r.rawErasure

/-- Classes, and arrays named as supertypes, each with a bound on the number of its supertypes. -/
def parentCounts (r : Registry) : List (Erasure × Nat) :=
  r.numbered.map (fun (c, d) => (.ofClass c, d.interfaces.length + 1)) ++
    r.namedSupertypes.map fun e => (e, 3)

/-- How many supertypes are left to queue if some erasures have been visited. -/
def outstandingAmong (counts : List (Erasure × Nat)) (visited : List Erasure) : Nat :=
  ((counts.filter fun (e, _) => !visited.contains e).map (·.2)).sum

/-- A number of supertypes that may still be queued when some erasures have been visited. -/
def outstanding (r : Registry) (visited : List Erasure) : Nat := outstandingAmong r.parentCounts visited

/-- The number of supertypes of an erasure is accounted for. -/
def IsCounted (r : Registry) (e : Erasure) : Prop :=
  r.supertypes e = [] ∨ ∃ n, (e, n) ∈ r.parentCounts ∧ (r.supertypes e).length ≤ n

/-- An erasure that is visited takes its count away from what is outstanding. -/
theorem outstandingAmong_cons_le {counts : List (Erasure × Nat)} {visited : List Erasure}
    {e : Erasure} :
    outstandingAmong counts (e :: visited) ≤ outstandingAmong counts visited ∧
      (e ∉ visited → ∀ n, (e, n) ∈ counts →
        outstandingAmong counts (e :: visited) + n ≤ outstandingAmong counts visited) := by
  induction counts with
  | nil => simp [outstandingAmong]
  | cons count counts ih =>
    obtain ⟨a, m⟩ := count
    have hcons : ∀ visited, outstandingAmong ((a, m) :: counts) visited =
        (if a ∈ visited then 0 else m) + outstandingAmong counts visited := by
      intro visited
      by_cases ha : a ∈ visited <;> simp [outstandingAmong, ha]
    rw [hcons, hcons]
    by_cases hav : a ∈ visited
    · have hav' : a ∈ e :: visited := List.mem_cons_of_mem _ hav
      simp only [if_pos hav, if_pos hav']
      refine ⟨by omega, fun he n hn => ?_⟩
      rcases List.mem_cons.mp hn with heq | hn
      · obtain ⟨rfl, -⟩ := Prod.mk.inj heq
        exact absurd hav he
      · have := ih.2 he n hn
        omega
    · simp only [if_neg hav]
      by_cases hae : a = e
      · have hmem : a ∈ e :: visited := by simp [hae]
        simp only [if_pos hmem]
        refine ⟨by omega, fun he n hn => ?_⟩
        rcases List.mem_cons.mp hn with heq | hn
        · obtain ⟨-, rfl⟩ := Prod.mk.inj heq
          omega
        · have := ih.2 he n hn
          omega
      · have hnot : a ∉ e :: visited := by simp [hae, hav]
        simp only [if_neg hnot]
        refine ⟨by omega, fun he n hn => ?_⟩
        rcases List.mem_cons.mp hn with heq | hn
        · exact absurd (Prod.mk.inj heq).1.symm hae
        · have := ih.2 he n hn
          omega

/-- Visiting an erasure queues no more than is taken away from what is outstanding. -/
theorem outstanding_cons_add_le {r : Registry} {e : Erasure} {visited : List Erasure}
    (hcounted : r.IsCounted e) (he : e ∉ visited) :
    r.outstanding (e :: visited) + (r.supertypes e).length ≤ r.outstanding visited := by
  rcases hcounted with hnone | ⟨n, hn, hle⟩
  · have hless : r.outstanding (e :: visited) ≤ r.outstanding visited :=
      outstandingAmong_cons_le.1
    simpa [hnone] using hless
  · have := outstandingAmong_cons_le.2 he n hn
    rw [outstanding, outstanding]
    omega

/-! ## All that is met is counted -/

theorem length_supertypes_le (r : Registry) {c : ClassId} {d : ClassDef}
    (hd : r.class? c = some d) : (r.supertypes (.ofClass c)).length ≤ d.interfaces.length + 1 := by
  have hsuper : (r.superclass? (.ofClass c)).toList.length ≤ 1 := by
    cases r.superclass? (.ofClass c) <;> simp
  have hinterfaces : (r.interfaces (.ofClass c)).length ≤ d.interfaces.length := by
    rw [interfaces]
    refine (List.length_filterMap_le ..).trans ?_
    simp [genericInterfaces, hd]
  rw [supertypes, List.length_append]
  omega

theorem length_supertypes_le_three (r : Registry) {e : Erasure} (he : e.isArray = true) :
    (r.supertypes e).length ≤ 3 := by
  have hsuper : (r.superclass? e).toList.length ≤ 1 := by
    cases r.superclass? e <;> simp
  have hinterfaces : (r.interfaces e).length ≤ 2 := by
    rw [interfaces]
    refine (List.length_filterMap_le ..).trans ?_
    simp [genericInterfaces, he]
  rw [supertypes, List.length_append]
  omega

/-- Every class is counted. -/
theorem isCounted_of_not_isArray (r : Registry) {e : Erasure} (he : e.isArray = false) :
    r.IsCounted e := by
  rcases exists_eq_ofClass he with ⟨c, rfl⟩
  cases hd : r.class? c with
  | none =>
    left
    simp [supertypes, superclass?, interfaces, genericSuperclass, genericInterfaces, hd]
  | some d =>
    refine .inr ⟨d.interfaces.length + 1, ?_, r.length_supertypes_le hd⟩
    exact List.mem_append_left _ (List.mem_map.mpr ⟨(c, d), mem_numbered hd, rfl⟩)

/-- The superclass of a class is the one that it names, or else the top class. -/
theorem superClass_of_genericSuperclass {r : Registry} {c : ClassId} {d : ClassDef} {t : TypeExpr}
    (hd : r.class? c = some d) (ht : r.genericSuperclass (.ofClass c) = some t) :
    d.superClass.getD (.ofClass r.wellKnown.object) = t := by
  rw [genericSuperclass, if_neg (by simp), Erasure.ofClass_element, hd] at ht
  dsimp only at ht
  split at ht
  · simp at ht
  · exact Option.some.inj ht

/-- A supertype that is an array is named by a class. -/
theorem mem_namedSupertypes {r : Registry} {e s : Erasure} (hs : s ∈ r.supertypes e)
    (harray : s.isArray = true) : s ∈ r.namedSupertypes := by
  rcases exists_isSupertype_of_mem hs with ⟨t, ht, hraw⟩
  have hobject : ∀ c, t ≠ .ofClass c := by
    rintro c rfl
    obtain rfl : Erasure.ofClass c = s := Option.some.inj ((rawErasure_of_head? r rfl).symm.trans hraw)
    simp at harray
  cases he : e.isArray with
  | true =>
    rcases exists_of_isSupertype_of_isArray he ht with ⟨c, -, rfl⟩
    exact absurd rfl (hobject c)
  | false =>
    rcases exists_eq_ofClass he with ⟨c, rfl⟩
    rcases exists_class?_of_isSupertype ht with ⟨d, hd⟩
    have hmem : d ∈ r.classes.toList := Array.mem_toList_iff.mpr (Array.mem_of_getElem? hd)
    refine List.mem_flatMap.mpr ⟨d, hmem, List.mem_filterMap.mpr ⟨t, ?_, hraw⟩⟩
    rcases ht with ht | ht
    · have ht := superClass_of_genericSuperclass hd ht
      cases hsuper : d.superClass with
      | none => exact absurd (by simpa [hsuper] using ht.symm) (hobject r.wellKnown.object)
      | some u =>
        obtain rfl : u = t := by simpa [hsuper] using ht
        simp
    · have ht : t ∈ d.interfaces := by simpa [genericInterfaces, hd] using ht
      exact List.mem_append_right _ ht

/-- Every supertype is counted. -/
theorem isCounted_of_mem_supertypes {r : Registry} {e s : Erasure} (hs : s ∈ r.supertypes e) :
    r.IsCounted s := by
  cases harray : s.isArray with
  | false => exact r.isCounted_of_not_isArray harray
  | true =>
    refine .inr ⟨3, ?_, r.length_supertypes_le_three harray⟩
    exact List.mem_append_right _ (List.mem_map.mpr ⟨s, mem_namedSupertypes hs harray, rfl⟩)

/-! ## Completeness -/

/--
What holds at every step of a search from an erasure for another: the visited erasures are not the
target, and have all their supertypes visited or in the queue.
-/
structure IsUnderway (r : Registry) (start target : Erasure) (queue visited : List Erasure) :
    Prop where
  counted : ∀ e ∈ queue, r.IsCounted e
  closed : ∀ e ∈ visited, e ≠ target ∧ ∀ s ∈ r.supertypes e, s ∈ visited ∨ s ∈ queue
  start : start ∈ visited ∨ start ∈ queue

namespace IsUnderway

variable {r : Registry} {start target e : Erasure} {queue visited : List Erasure}

/-- An empty queue leaves no ancestor to be found. -/
theorem not_isBelow (h : r.IsUnderway start target [] visited) : ¬r.IsBelow start target := by
  intro hbelow
  have hvisited : ∀ e, r.IsBelow start e → e ∈ visited := by
    intro e he
    induction he with
    | refl => simpa using h.start
    | tail _ hstep ih => simpa using (h.closed _ ih).2 _ hstep
  exact absurd rfl (h.closed target (hvisited target hbelow)).1

/-- An erasure that was visited is passed over. -/
theorem skip (h : r.IsUnderway start target (e :: queue) visited) (he : e ∈ visited) :
    r.IsUnderway start target queue visited := by
  have hmet : ∀ a, a ∈ visited ∨ a ∈ e :: queue → a ∈ visited ∨ a ∈ queue := by
    rintro a (ha | ha)
    · exact .inl ha
    · rcases List.mem_cons.mp ha with rfl | ha
      · exact .inl he
      · exact .inr ha
  constructor
  · exact fun a ha => h.counted a (List.mem_cons_of_mem _ ha)
  · exact fun a ha => ⟨(h.closed a ha).1, fun s hs => hmet s ((h.closed a ha).2 s hs)⟩
  · exact hmet start h.start

/-- An erasure that is visited, and is not the target, puts its supertypes into the queue. -/
theorem visit (h : r.IsUnderway start target (e :: queue) visited) (he : e ≠ target) :
    r.IsUnderway start target (queue ++ r.supertypes e) (e :: visited) := by
  have hmet : ∀ a, a ∈ visited ∨ a ∈ e :: queue →
      a ∈ e :: visited ∨ a ∈ queue ++ r.supertypes e := by
    rintro a (ha | ha)
    · exact .inl (List.mem_cons_of_mem _ ha)
    · rcases List.mem_cons.mp ha with rfl | ha
      · exact .inl List.mem_cons_self
      · exact .inr (List.mem_append_left _ ha)
  constructor
  · intro a ha
    rcases List.mem_append.mp ha with ha | ha
    · exact h.counted a (List.mem_cons_of_mem _ ha)
    · exact isCounted_of_mem_supertypes ha
  · intro a ha
    rcases List.mem_cons.mp ha with rfl | ha
    · exact ⟨he, fun s hs => .inr (List.mem_append_right _ hs)⟩
    · exact ⟨(h.closed a ha).1, fun s hs => hmet s ((h.closed a ha).2 s hs)⟩
  · exact hmet start h.start

end IsUnderway

/-- With enough steps the search reaches every ancestor. -/
theorem reaches_of_outstanding_lt {r : Registry} {start target : Erasure} {steps : Nat}
    {queue visited : List Erasure} (hsteps : queue.length + r.outstanding visited < steps)
    (h : r.IsUnderway start target queue visited) (hbelow : r.IsBelow start target) :
    r.reaches target steps queue visited = true := by
  induction steps generalizing queue visited with
  | zero => omega
  | succ steps ih =>
    cases queue with
    | nil => exact absurd hbelow h.not_isBelow
    | cons e queue =>
      rw [List.length_cons] at hsteps
      rw [reaches]
      split
      · rename_i he
        exact ih (by omega) (h.skip (by simpa using he))
      · rename_i he
        have he : e ∉ visited := by simpa using he
        split
        · rfl
        · rename_i htarget
          have houtstanding :=
            outstanding_cons_add_le (h.counted e List.mem_cons_self) he
          refine ih ?_ (h.visit htarget)
          rw [List.length_append]
          omega

/-! ## The steps there are -/

theorem supertypeCount_eq (r : Registry) :
    r.supertypeCount = (r.classes.toList.map fun d => d.interfaces.length + 1).sum := by
  have hfold : ∀ (ds : List ClassDef) (n : Nat),
      ds.foldl (fun count d => count + d.interfaces.length + 1) n =
        n + (ds.map fun d => d.interfaces.length + 1).sum := by
    intro ds
    induction ds with
    | nil => simp
    | cons d ds ih =>
      intro n
      rw [List.foldl_cons, ih, List.map_cons, List.sum_cons]
      omega
  rw [supertypeCount, ← Array.foldl_toList, hfold, Nat.zero_add]

theorem length_namedSupertypes_le (r : Registry) :
    r.namedSupertypes.length ≤ r.supertypeCount := by
  rw [supertypeCount_eq, namedSupertypes, List.length_flatMap]
  refine List.sum_le_sum fun d _ => ?_
  refine (List.length_filterMap_le ..).trans ?_
  have hsuper : d.superClass.toList.length ≤ 1 := by cases d.superClass <;> simp
  rw [List.length_append]
  omega

theorem map_snd_numbered (r : Registry) : r.numbered.map (·.2) = r.classes.toList := by
  rw [numbered, List.map_map]
  exact List.zipIdx_map_fst 0 r.classes.toList

/-- All supertypes together are outstanding before anything is visited. -/
theorem outstanding_nil_le (r : Registry) : r.outstanding [] ≤ 4 * r.supertypeCount := by
  have hclasses : (r.numbered.map fun (_, d) => d.interfaces.length + 1).sum =
      r.supertypeCount := by
    rw [supertypeCount_eq, ← map_snd_numbered, List.map_map]
    rfl
  have hnamed := r.length_namedSupertypes_le
  have houtstanding : r.outstanding [] = r.supertypeCount + 3 * r.namedSupertypes.length := by
    have hconst : (r.namedSupertypes.map fun _ => 3).sum = r.namedSupertypes.length * 3 := by
      simp
    rw [← hclasses, Nat.mul_comm, ← hconst]
    simp [outstanding, outstandingAmong, parentCounts, Function.comp_def]
  omega

/-- From a class the search reaches exactly the class and its ancestors. -/
theorem reaches_iff (r : Registry) {source : Erasure} (hsource : source.isArray = false)
    (target : Erasure) :
    r.reaches target r.searchSteps [source] [] = true ↔ r.IsBelow source target := by
  constructor
  · intro h
    rcases exists_of_reaches h with ⟨e, he, hbelow⟩
    obtain rfl := List.mem_singleton.mp he
    exact hbelow
  · intro h
    have houtstanding := r.outstanding_nil_le
    refine reaches_of_outstanding_lt ?_ ⟨?_, by simp, .inr List.mem_cons_self⟩ h
    · rw [searchSteps, List.length_singleton]
      omega
    · intro e he
      obtain rfl := List.mem_singleton.mp he
      exact r.isCounted_of_not_isArray hsource

end Registry

end TypeConversion
