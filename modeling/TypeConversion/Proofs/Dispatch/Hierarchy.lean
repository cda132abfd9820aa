import TypeConversion.Proofs.Registry.Base
import TypeConversion.Conversion.Hierarchy

/-!
# What is met in a hierarchy

Besides what it starts from, a climb meets only supertypes, all of them as arrays if it climbs from
an array.  So a final class is met only where its own type is converted, and the arrays of objects
only where the type is an array.
-/

namespace TypeConversion

namespace Registry

variable {r : Registry}

/-- An entry of a climb that was there from the start, or that is a supertype of something. -/
def IsClimbed (r : Registry) (asArray : Bool) (start : List Erasure) (e : Erasure) : Prop :=
  e ∈ start ∨ ∃ c, ∃ s ∈ r.supertypes c, e = liftErasure asArray s

theorem mem_meetFirst {e x : Erasure} {queue met : List Erasure}
    (h : x ∈ (meetFirst e queue met).1) : x = e ∨ x ∈ queue := by
  rw [meetFirst] at h
  split at h
  · exact .inr h
  · exact List.mem_cons.mp h

theorem mem_meetLast {e x : Erasure} {queue met : List Erasure}
    (h : x ∈ (meetLast e queue met).1) : x ∈ queue ∨ x = e := by
  rw [meetLast] at h
  split at h
  · exact .inl h
  · simpa using h

/-- The queue gains nothing but interfaces. -/
theorem mem_foldl_meetLast {asArray : Bool} {x : Erasure} (interfaces : List Erasure)
    {state : List Erasure × List Erasure}
    (h : x ∈ (interfaces.foldl
      (fun (queue, met) i => meetLast (liftErasure asArray i) queue met) state).1) :
    x ∈ state.1 ∨ ∃ i ∈ interfaces, x = liftErasure asArray i := by
  induction interfaces generalizing state with
  | nil => exact .inl h
  | cons i rest ih =>
    rcases ih h with h | ⟨j, hj, rfl⟩
    · rcases mem_meetLast h with h | rfl
      · exact .inl h
      · exact .inr ⟨i, List.mem_cons_self, rfl⟩
    · exact .inr ⟨j, List.mem_cons_of_mem _ hj, rfl⟩

/-- The supertypes that a climb goes on to. -/
def climbedSupertypes (r : Registry) (e : Erasure) : List Erasure :=
  (r.climbedSuperclass? e).toList ++ r.interfaces e

theorem mem_climbedSupertypes_iff {e s : Erasure} :
    s ∈ r.climbedSupertypes e ↔ r.climbedSuperclass? e = some s ∨ s ∈ r.interfaces e := by
  simp [climbedSupertypes]

theorem climbedSupertypes_subset (e : Erasure) : r.climbedSupertypes e ⊆ r.supertypes e := by
  intro s hs
  rw [mem_supertypes_iff]
  exact (mem_climbedSupertypes_iff.mp hs).imp_left fun hs => (Option.filter_eq_some_iff.mp hs).1

/-- The queue and what has been met once the supertypes of an entry are queued. -/
def climbStep (r : Registry) (asArray : Bool) (c : Erasure) (queue met : List Erasure) :
    List Erasure × List Erasure :=
  (r.interfaces c).foldl (fun (queue, met) i => meetLast (liftErasure asArray i) queue met)
    ((r.climbedSuperclass? c).elim (queue, met) fun s =>
      meetFirst (liftErasure asArray s) queue met)

theorem climbHierarchy_cons {asArray : Bool} {e c : Erasure}
    (hc : r.climbingEntry asArray e = some c) (steps : Nat) (queue met : List Erasure) :
    r.climbHierarchy asArray (steps + 1) (e :: queue) met =
      e :: r.climbHierarchy asArray steps (r.climbStep asArray c queue met).1
        (r.climbStep asArray c queue met).2 := by
  rw [climbHierarchy, hc]
  cases hs : r.climbedSuperclass? c <;> simp only [climbStep, hs, Option.elim]

/-- A step queues nothing but supertypes. -/
theorem mem_climbStep {asArray : Bool} {c x : Erasure} {queue met : List Erasure}
    (h : x ∈ (r.climbStep asArray c queue met).1) :
    x ∈ queue ∨ ∃ s ∈ r.climbedSupertypes c, x = liftErasure asArray s := by
  rcases mem_foldl_meetLast (r.interfaces c) h with h | ⟨i, hi, rfl⟩
  · cases hs : r.climbedSuperclass? c with
    | none => exact .inl (by simpa [hs] using h)
    | some s =>
      rw [hs, Option.elim_some] at h
      rcases mem_meetFirst h with rfl | h
      · exact .inr ⟨s, mem_climbedSupertypes_iff.mpr (.inl hs), rfl⟩
      · exact .inl h
  · exact .inr ⟨i, mem_climbedSupertypes_iff.mpr (.inr hi), rfl⟩

/-- What holds of the queue, and of the supertypes of what it holds of, holds of all that is met. -/
theorem forall_mem_climbHierarchy {asArray : Bool} {P : Erasure → Prop}
    (hstep : ∀ e c, P e → r.climbingEntry asArray e = some c → ∀ s ∈ r.climbedSupertypes c,
      P (liftErasure asArray s)) {steps : Nat} {queue met : List Erasure}
    (hqueue : ∀ e ∈ queue, P e) : ∀ e ∈ r.climbHierarchy asArray steps queue met, P e := by
  induction steps generalizing queue met with
  | zero => exact hqueue
  | succ steps ih =>
    cases queue with
    | nil => simp [climbHierarchy]
    | cons x queue =>
      rcases List.forall_mem_cons.mp hqueue with ⟨hx, hrest⟩
      cases hc : r.climbingEntry asArray x with
      | none =>
        rw [climbHierarchy, hc]
        exact List.forall_mem_cons.mpr ⟨hx, ih hrest⟩
      | some c =>
        rw [climbHierarchy_cons hc]
        refine List.forall_mem_cons.mpr ⟨hx, ih fun e he => ?_⟩
        rcases mem_climbStep he with he | ⟨s, hs, rfl⟩
        · exact hrest e he
        · exact hstep x c hx hc s hs

/-- A climb from classes, each of which has the supertypes of its form. -/
def climbAs (r : Registry) (form : Erasure → Erasure) :
    Nat → List Erasure → List Erasure → List Erasure
  | 0, queue, _ => queue
  | _ + 1, [], _ => []
  | steps + 1, e :: queue, met =>
    e :: r.climbAs form steps (r.climbStep false (form e) queue met).1
      (r.climbStep false (form e) queue met).2

/-- The hierarchy of a class is climbed by boxes. -/
theorem climbHierarchy_false (steps : Nat) (queue met : List Erasure) :
    r.climbHierarchy false steps queue met = r.climbAs r.boxed steps queue met := by
  induction steps generalizing queue met with
  | zero => rfl
  | succ steps ih =>
    cases queue with
    | nil => rfl
    | cons e queue =>
      have hentry : r.climbingEntry false e = some (r.boxed e) := rfl
      rw [climbHierarchy_cons hentry, ih, climbAs]

/-- Forms that agree on what is below a climb give the same climb. -/
theorem climbAs_congr {form form' : Erasure → Erasure} {P : Erasure → Prop}
    (hform : ∀ e, P e → form e = form' e ∧ ∀ s ∈ r.supertypes (form e), P s)
    (steps : Nat) {queue : List Erasure} (hqueue : ∀ e ∈ queue, P e) (met : List Erasure) :
    r.climbAs form steps queue met = r.climbAs form' steps queue met := by
  induction steps generalizing queue met with
  | zero => rfl
  | succ steps ih =>
    cases queue with
    | nil => rfl
    | cons x queue =>
      rcases List.forall_mem_cons.mp hqueue with ⟨hx, hrest⟩
      rcases hform x hx with ⟨heq, hsuper⟩
      rw [climbAs, climbAs, ← heq]
      refine congrArg _ (ih (fun e he => ?_) _)
      rcases mem_climbStep he with he | ⟨s, hs, heq⟩
      · exact hrest e he
      · have heq : e = s := heq
        exact heq ▸ hsuper s (climbedSupertypes_subset _ hs)

/-- A climb meets what it starts from, and supertypes. -/
theorem isClimbed_of_mem {asArray : Bool} {steps : Nat} {queue met : List Erasure} {e : Erasure}
    (h : e ∈ r.climbHierarchy asArray steps queue met) : r.IsClimbed asArray queue e := by
  refine forall_mem_climbHierarchy (P := r.IsClimbed asArray queue) ?_ (fun _ => .inl) e h
  intro _ c _ _ s hs
  exact .inr ⟨c, s, climbedSupertypes_subset c hs, rfl⟩

theorem mem_appendNew_iff (entries : List Erasure) (e x : Erasure) :
    x ∈ appendNew entries e ↔ x ∈ entries ∨ x = e := by
  rw [appendNew]
  split
  · rename_i h
    have h : e ∈ entries := by simpa using h
    constructor
    · exact .inl
    · rintro (hx | rfl)
      · exact hx
      · exact h
  · simp

/-- A hierarchy starts with the box of its type. -/
theorem boxed_mem_classHierarchy (r : Registry) (e : Erasure) : r.boxed e ∈ r.classHierarchy e := by
  have hclimbed : r.boxed e ∈
      r.climbHierarchy e.isArray r.searchSteps [r.boxed e] [r.boxed e] := by
    rw [searchSteps, climbHierarchy.eq_def]
    dsimp only
    split <;> exact List.mem_cons_self
  rw [classHierarchy]
  refine (mem_appendNew_iff ..).mpr (.inl ((mem_appendNew_iff ..).mpr (.inl ?_)))
  split
  · exact (mem_appendNew_iff ..).mpr (.inl hclimbed)
  · exact hclimbed

/-- Every hierarchy has the top class. -/
theorem object_mem_classHierarchy (r : Registry) (e : Erasure) : r.object ∈ r.classHierarchy e :=
  (mem_appendNew_iff ..).mpr (.inr rfl)

/-- The entries of a hierarchy: the boxed type, supertypes, the class of enums, the top class. -/
theorem mem_classHierarchy {target e : Erasure} (h : e ∈ r.classHierarchy target) :
    e = r.boxed target ∨ (∃ c, ∃ s ∈ r.supertypes c, e = liftErasure target.isArray s) ∨
      e = .ofClass r.wellKnown.enumClass ∨ e = liftErasure target.isArray r.object ∨
      e = r.object := by
  rw [classHierarchy] at h
  rcases (mem_appendNew_iff ..).mp h with h | h
  · rcases (mem_appendNew_iff ..).mp h with h | h
    · have hclimbed : e ∈ r.climbHierarchy target.isArray r.searchSteps [r.boxed target]
          [r.boxed target] ∨ e = .ofClass r.wellKnown.enumClass := by
        split at h
        · exact (mem_appendNew_iff ..).mp h
        · exact .inl h
      rcases hclimbed with h | h
      · rcases isClimbed_of_mem h with h | h
        · exact .inl (by simpa using h)
        · exact .inr (.inl h)
      · exact .inr (.inr (.inl h))
    · exact .inr (.inr (.inr (.inl h)))
  · exact .inr (.inr (.inr (.inr h)))

theorem isArray_array (e : Erasure) : e.array.isArray = true := by
  rw [Erasure.array, Erasure.array?]
  split
  · rename_i hdims
    simp [Erasure.isArray, hdims]
  · rename_i hdims
    have hne : e.dims + 1 ≠ 0 := by grind
    simpa [Erasure.isArray] using hne

/-- As an array nothing is a class, and else only that class is. -/
theorem ne_liftErasure {asArray : Bool} {c : ClassId} {s : Erasure} (h : s ≠ .ofClass c) :
    .ofClass c ≠ liftErasure asArray s := by
  intro heq
  cases asArray with
  | false => exact h heq.symm
  | true =>
    have harray := isArray_array s
    rw [show s.array = _ from heq.symm] at harray
    exact Bool.false_ne_true harray

/-- A final class is met only in the hierarchies of itself and of what it boxes. -/
theorem boxed_eq_of_mem_classHierarchy (hbase : r.ExtendsBase) (hi : r.RegularInheritance)
    {target : Erasure} {f : ClassId} (hf : f ∈ r.wellKnown.finalClasses)
    (h : .ofClass f ∈ r.classHierarchy target) : r.boxed target = .ofClass f := by
  rw [hbase.wellKnown] at hf
  rcases finalClasses_of_bootstrap f hf with ⟨-, -, henum, hobject⟩
  have hobject : r.object ≠ .ofClass f := by
    intro heq
    have : r.wellKnown.object = f := congrArg Erasure.element heq
    rw [hbase.wellKnown] at this
    exact hobject (by simp [← this])
  rcases mem_classHierarchy h with h | ⟨c, s, hs, h⟩ | h | h | h
  · exact h.symm
  · have hfinal := (hi.supertypes hbase hs).2
    exact absurd h (ne_liftErasure (hfinal f (by rw [hbase.wellKnown]; exact hf)))
  · have : f = r.wellKnown.enumClass := congrArg Erasure.element h
    rw [hbase.wellKnown] at this
    exact absurd this henum
  · exact absurd h (ne_liftErasure hobject)
  · exact absurd h.symm hobject

/-- No class but the one of enums and the top class is met in the hierarchy of an array. -/
theorem not_mem_classHierarchy_of_isArray {target : Erasure} (harray : target.isArray = true)
    {c : ClassId} (henum : c ≠ r.wellKnown.enumClass) (hobject : c ≠ r.wellKnown.object) :
    .ofClass c ∉ r.classHierarchy target := by
  have hclass : ∀ e : Erasure, e.isArray = true → Erasure.ofClass c ≠ e := by
    rintro e he rfl
    simp at he
  have hlift : ∀ s, (liftErasure target.isArray s).isArray = true := by
    intro s
    rw [harray]
    exact isArray_array s
  have hboxed : r.boxed target = target := by simp [boxed, Erasure.asClass?, harray]
  intro h
  rcases mem_classHierarchy h with h | ⟨-, s, -, h⟩ | h | h | h
  · exact hclass target harray (h.trans hboxed)
  · exact hclass _ (hlift s) h
  · exact henum (congrArg Erasure.element h)
  · exact hclass _ (hlift r.object) h
  · exact hobject (congrArg Erasure.element h)

/-- Arrays are met only in the hierarchies of arrays. -/
theorem isArray_of_mem_classHierarchy (hbase : r.ExtendsBase) (hi : r.RegularInheritance)
    {target e : Erasure} (he : e.isArray = true) (h : e ∈ r.classHierarchy target) :
    target.isArray = true := by
  by_contra hnot
  have hplain : target.isArray = false := by simpa using hnot
  rw [← Bool.not_eq_false] at he
  refine he ?_
  rcases mem_classHierarchy h with rfl | ⟨c, s, hs, rfl⟩ | rfl | rfl | rfl
  · exact isArray_boxed r hplain
  · simpa [hplain, liftErasure] using (hi.supertypes hbase hs).1
  · rfl
  · simp [hplain, liftErasure, object]
  · rfl

end Registry

end TypeConversion
