import TypeConversion.Proofs.Dispatch.Climb
import TypeConversion.Conversion.Converters

/-!
# The hierarchies of arrays

From an array the climb goes as from its component, with arrays in the queue; components are not
boxed, and the class of enums is not put before the top class: an array is no enum, whatever its
component is.  So for a class that, like all its ancestors, is its own box, the hierarchy of the
array is that of the class, each entry as an array, and the top class, unless the class is an enum.

**Results**

* `climbStep_array`, `climbHierarchy_true`: a step, and a climb, from arrays;
* `classHierarchy_array`: the hierarchy of the array of any class;
* `classHierarchy_array_eq_iff`: when it is that of the class with arrays for entries, and whom
  converters for arrays serve;
* `enumArray_classHierarchy_ne`: for an enum it is not.
-/

namespace TypeConversion

namespace Registry

variable {r : Registry}

/-! ## Climbing as arrays -/

/-- Arrays of classes are told apart by their components. -/
theorem array_inj {e e' : Erasure} (he : e.isArray = false) (he' : e'.isArray = false) :
    e.array = e'.array ↔ e = e' := by
  rcases exists_eq_ofClass he with ⟨c, rfl⟩
  rcases exists_eq_ofClass he' with ⟨c', rfl⟩
  refine ⟨fun h => ?_, congrArg Erasure.array⟩
  have helement : (Erasure.ofClass c).array.element = (Erasure.ofClass c').array.element :=
    congrArg Erasure.element h
  exact congrArg Erasure.ofClass helement

theorem climbingEntry_array {e : Erasure} (he : e.isArray = false) :
    r.climbingEntry true e.array = some e := by
  rcases exists_eq_ofClass he with ⟨c, rfl⟩
  simp [climbingEntry, Erasure.array, Erasure.array?, Erasure.component?, Erasure.isArray,
    Erasure.ofClass]

/-- The entries of a queue, and what has been met, as arrays. -/
def asArrays (state : List Erasure × List Erasure) : List Erasure × List Erasure :=
  (state.1.map Erasure.array, state.2.map Erasure.array)

/-- Neither in a queue nor among what has been met are there arrays. -/
def IsPlain (state : List Erasure × List Erasure) : Prop :=
  (∀ x ∈ state.1, x.isArray = false) ∧ ∀ x ∈ state.2, x.isArray = false

section Step

variable {e : Erasure} {state : List Erasure × List Erasure}

theorem contains_map_array {met : List Erasure} (he : e.isArray = false)
    (hmet : ∀ x ∈ met, x.isArray = false) :
    (met.map Erasure.array).contains e.array = met.contains e := by
  rw [Bool.eq_iff_iff, List.contains_iff_mem, List.contains_iff_mem, List.mem_map]
  constructor
  · rintro ⟨x, hx, heq⟩
    exact (array_inj (hmet x hx) he).mp heq ▸ hx
  · exact fun h => ⟨e, h, rfl⟩

theorem meetFirst_array (he : e.isArray = false) (h : IsPlain state) :
    meetFirst e.array (asArrays state).1 (asArrays state).2 =
        asArrays (meetFirst e state.1 state.2) ∧
      IsPlain (meetFirst e state.1 state.2) := by
  rw [meetFirst, meetFirst, asArrays, contains_map_array he h.2]
  cases state.2.contains e with
  | true => exact ⟨rfl, h⟩
  | false => exact ⟨rfl, List.forall_mem_cons.mpr ⟨he, h.1⟩, List.forall_mem_cons.mpr ⟨he, h.2⟩⟩

theorem meetLast_array (he : e.isArray = false) (h : IsPlain state) :
    meetLast e.array (asArrays state).1 (asArrays state).2 =
        asArrays (meetLast e state.1 state.2) ∧
      IsPlain (meetLast e state.1 state.2) := by
  rw [meetLast, meetLast, asArrays, contains_map_array he h.2]
  cases state.2.contains e with
  | true => exact ⟨rfl, h⟩
  | false =>
    have hqueue : ∀ x ∈ state.1 ++ [e], x.isArray = false :=
      List.forall_mem_append.mpr ⟨h.1, by simpa using he⟩
    refine ⟨?_, hqueue, List.forall_mem_cons.mpr ⟨he, h.2⟩⟩
    simp [asArrays]

theorem foldl_meetLast_array {interfaces : List Erasure}
    (hinterfaces : ∀ i ∈ interfaces, i.isArray = false) (h : IsPlain state) :
    interfaces.foldl (fun (queue, met) i => meetLast (liftErasure true i) queue met)
        (asArrays state) =
      asArrays (interfaces.foldl
        (fun (queue, met) i => meetLast (liftErasure false i) queue met) state) ∧
      IsPlain (interfaces.foldl
        (fun (queue, met) i => meetLast (liftErasure false i) queue met) state) := by
  induction interfaces generalizing state with
  | nil => exact ⟨rfl, h⟩
  | cons i interfaces ih =>
    rcases List.forall_mem_cons.mp hinterfaces with ⟨hi, hinterfaces⟩
    rcases meetLast_array hi h with ⟨hstep, h⟩
    rw [List.foldl_cons, List.foldl_cons]
    change List.foldl _ (meetLast i.array (asArrays state).1 (asArrays state).2) _ = _ ∧ _
    rw [hstep]
    exact ih hinterfaces h

/-- A step from an array is a step from its component, with arrays in the queue. -/
theorem climbStep_array {c : Erasure} (hc : ∀ s ∈ r.supertypes c, s.isArray = false)
    (h : IsPlain state) :
    r.climbStep true c (asArrays state).1 (asArrays state).2 =
        asArrays (r.climbStep false c state.1 state.2) ∧
      IsPlain (r.climbStep false c state.1 state.2) := by
  have hinterfaces : ∀ i ∈ r.interfaces c, i.isArray = false := fun i hi =>
    hc i ((mem_supertypes_iff ..).mpr (.inr hi))
  rw [climbStep, climbStep]
  cases hs : r.climbedSuperclass? c with
  | none => exact foldl_meetLast_array hinterfaces h
  | some s =>
    have hsuper : s.isArray = false :=
      hc s ((mem_supertypes_iff ..).mpr (.inl (Option.filter_eq_some_iff.mp hs).1))
    rcases meetFirst_array hsuper h with ⟨hstep, h⟩
    rw [Option.elim_some, Option.elim_some]
    change List.foldl _ (meetFirst s.array (asArrays state).1 (asArrays state).2) _ = _ ∧ _
    rw [hstep]
    exact foldl_meetLast_array hinterfaces h

end Step

/-- From arrays the climb goes as from their components, which are not boxed. -/
theorem climbHierarchy_true
    (hplain : ∀ e : Erasure, e.isArray = false → ∀ s ∈ r.supertypes e, s.isArray = false)
    (steps : Nat) {queue met : List Erasure} (h : IsPlain (queue, met)) :
    r.climbHierarchy true steps (queue.map Erasure.array) (met.map Erasure.array) =
      (r.climbAs id steps queue met).map Erasure.array := by
  induction steps generalizing queue met with
  | zero => rfl
  | succ steps ih =>
    cases queue with
    | nil => rfl
    | cons e queue =>
      rcases List.forall_mem_cons.mp h.1 with ⟨he, hqueue⟩
      have h : IsPlain (queue, met) := ⟨hqueue, h.2⟩
      rcases climbStep_array (hplain e he) h with ⟨hstep, h⟩
      have hstep : r.climbStep true e (queue.map Erasure.array) (met.map Erasure.array) =
          asArrays (r.climbStep false e queue met) := hstep
      rw [List.map_cons, climbHierarchy_cons (climbingEntry_array he), hstep, climbAs,
        List.map_cons]
      exact congrArg _ (ih h)

/-! ## The hierarchies of arrays -/

/-- Lists of classes are told apart by the arrays of these. -/
theorem map_array_inj {xs ys : List Erasure} (hxs : ∀ x ∈ xs, x.isArray = false)
    (hys : ∀ y ∈ ys, y.isArray = false) :
    xs.map Erasure.array = ys.map Erasure.array ↔ xs = ys := by
  have hinverse : ∀ zs : List Erasure, (∀ z ∈ zs, z.isArray = false) →
      (zs.map Erasure.array).map (fun e => .ofClass e.element) = zs := by
    intro zs hzs
    rw [List.map_map]
    refine (List.map_congr_left fun z hz => ?_).trans (List.map_id zs)
    rcases exists_eq_ofClass (hzs z hz) with ⟨c, rfl⟩
    rfl
  refine ⟨fun h => ?_, congrArg _⟩
  rw [← hinverse xs hxs, h, hinverse ys hys]

theorem appendNew_array {entries : List Erasure} {e : Erasure} (he : e.isArray = false)
    (h : ∀ x ∈ entries, x.isArray = false) :
    appendNew (entries.map Erasure.array) e.array = (appendNew entries e).map Erasure.array := by
  rw [appendNew, appendNew, contains_map_array he h]
  cases entries.contains e <;> simp

theorem KindedInheritance.isArray_of_mem_supertypes (h : r.KindedInheritance) {e s : Erasure}
    (he : e.isArray = false) (hs : s ∈ r.supertypes e) : s.isArray = false := by
  rcases exists_eq_ofClass he with ⟨c, rfl⟩
  rcases (mem_supertypes_iff ..).mp hs with hs | hs
  · by_cases hobject : s = r.object
    · rw [hobject]
      rfl
    · exact (h.superclasses c s hs hobject).1
  · exact isArray_of_isInterface (h.interfaces c s hs)

theorem KindedInheritance.climb_id (h : r.KindedInheritance) : r.KindedClimb id :=
  h.climb fun _ => id

/--
The hierarchy of an array has what is discovered from its component, each as an array, the arrays of
everything, and everything.  Nothing is boxed.
-/
theorem classHierarchy_array (h : r.KindedInheritance) (c : ClassId) {n : Nat}
    (hn : r.supertypeCount ≤ n) :
    r.classHierarchy (Erasure.ofClass c).array =
      ((r.discovery id n (.ofClass c) ++ [r.object]).eraseDups).map Erasure.array ++
        [r.object] := by
  have harray := isArray_array (.ofClass c)
  have hboxed : r.boxed (Erasure.ofClass c).array = (Erasure.ofClass c).array := by
    simp [boxed, Erasure.asClass?, harray]
  have henum : r.isEnum (Erasure.ofClass c).array = false := by simp [isEnum, hasKind, harray]
  have hclass : (Erasure.ofClass c).isArray = false := rfl
  rcases climbAs_eq_discovery h.climb_id hclass hn with ⟨hclimb, hplain⟩
  have hstart : IsPlain ([.ofClass c], [.ofClass c]) := by simp [IsPlain]
  have hclimbed := climbHierarchy_true (fun e he s => h.isArray_of_mem_supertypes he)
    r.searchSteps hstart
  rw [List.map_singleton, hclimb] at hclimbed
  rw [hclimb] at hplain
  have hlast : r.object ∉
      ((r.discovery id n (.ofClass c) ++ [r.object]).eraseDups).map Erasure.array := by
    intro hmem
    rcases List.mem_map.mp hmem with ⟨e, -, heq⟩
    have hobject := isArray_array e
    rw [heq] at hobject
    exact Bool.false_ne_true hobject
  rw [classHierarchy, harray, hboxed, henum, if_neg Bool.false_ne_true, hclimbed, liftErasure,
    if_pos rfl, appendNew_array rfl hplain, appendNew_eraseDups, appendNew, if_neg]
  simpa using hlast

/-- What is discovered from a class, and the top class, are no arrays. -/
theorem isArray_of_mem_discovery (h : r.KindedInheritance) {c : ClassId} {n : Nat}
    (hn : r.supertypeCount ≤ n) :
    ∀ e ∈ r.discovery id n (.ofClass c) ++ [r.object], e.isArray = false := by
  have hclass : (Erasure.ofClass c).isArray = false := rfl
  rcases climbAs_eq_discovery h.climb_id hclass hn with ⟨hclimb, hplain⟩
  rw [hclimb] at hplain
  intro e he
  rcases List.mem_append.mp he with he | he
  · exact hplain e (List.mem_eraseDups.mpr he)
  · rw [List.mem_singleton.mp he]
    rfl

/-- The arrays met in the hierarchy of an array. -/
theorem array_mem_classHierarchy_iff (h : r.KindedInheritance) {c : ClassId} {n : Nat}
    (hn : r.supertypeCount ≤ n) {e : Erasure} (he : e.isArray = false) :
    e.array ∈ r.classHierarchy (Erasure.ofClass c).array ↔
      e ∈ r.discovery id n (.ofClass c) ++ [r.object] := by
  rw [classHierarchy_array h c hn]
  constructor
  · intro hmem
    rcases List.mem_append.mp hmem with hmem | hmem
    · rcases List.mem_map.mp hmem with ⟨e', he', heq⟩
      have he' := List.mem_eraseDups.mp he'
      exact (array_inj (isArray_of_mem_discovery h hn e' he') he).mp heq ▸ he'
    · have hobject := isArray_array e
      rw [List.mem_singleton.mp hmem] at hobject
      exact absurd hobject Bool.false_ne_true
  · exact fun hmem => List.mem_append_left _ (List.mem_map_of_mem (List.mem_eraseDups.mpr hmem))

/-- The hierarchy of a class if neither it nor an ancestor is boxed. -/
theorem classHierarchy_of_own_boxes (h : r.KindedInheritance) {c : ClassId}
    (hown : ∀ a, r.IsBelow (.ofClass c) a → r.boxed a = a) {n : Nat} (hn : r.supertypeCount ≤ n) :
    r.classHierarchy (.ofClass c) = (r.discovery id n (.ofClass c) ++
      ((if r.isEnum (.ofClass c) then [Erasure.ofClass r.wellKnown.enumClass] else []) ++
        [r.object])).eraseDups := by
  have hself : r.boxed (.ofClass c) = .ofClass c := hown _ .refl
  have hsame : (r.discovery r.boxed n (.ofClass c)).eraseDups =
      (r.discovery id n (.ofClass c)).eraseDups := by
    rw [← (climbAs_eq_discovery h.climb_boxed rfl hn).1,
      ← (climbAs_eq_discovery h.climb_id rfl hn).1]
    refine climbAs_congr (P := r.IsBelow (.ofClass c)) (fun a ha => ?_) _ (fun e he => ?_) _
    · rw [hown a ha]
      exact ⟨rfl, fun s hs => ha.tail hs⟩
    · rw [List.mem_singleton.mp he]
      exact .refl
  rw [classHierarchy_eq_eraseDups h rfl hn, hself]
  exact eraseDups_append_congr hsame rfl

/-! ## Converters for arrays -/

/-- Whatever is registered for a pair is tried for the types. -/
def Serves (r : Registry) (pair : ConvertiblePair) (source target : Erasure) : Prop :=
  ∀ (cs : Converters), ∀ c ∈ cs.atPair pair, c ∈ cs.candidates r source target

theorem serves_iff {pair : ConvertiblePair} {source target : Erasure} :
    r.Serves pair source target ↔
      pair.source ∈ r.classHierarchy source ∧ pair.target ∈ r.classHierarchy target := by
  constructor
  · intro h
    have hc : Converter.passThrough ∈ (Converters.mk [(pair, [.passThrough])] []).atPair pair := by
      simp [Converters.atPair]
    rcases List.mem_flatMap.mp (h _ _ hc) with ⟨s, hs, hc⟩
    rcases List.mem_flatMap.mp hc with ⟨t, ht, hc⟩
    by_cases heq : ⟨s, t⟩ = pair
    · rw [← heq]
      exact ⟨hs, ht⟩
    · have hne : (⟨s, t⟩ == pair) = false := by simpa using heq
      simp [Converters.atPair, List.lookup_cons, hne] at hc
  · rintro ⟨hs, ht⟩ cs c hc
    exact List.mem_flatMap.mpr ⟨_, hs, List.mem_flatMap.mpr ⟨_, ht, hc⟩⟩

/--
The hierarchy of an array is that of its component, each entry as an array, and everything, exactly
if the class of enums is not left out: it is not met in the hierarchies of arrays of enums.  So
converters for arrays of any other class serve the arrays of all that converters for the class
serve.
-/
theorem classHierarchy_array_eq_iff (h : r.KindedInheritance) {c : ClassId}
    (hown : ∀ a, r.IsBelow (.ofClass c) a → r.boxed a = a) :
    (r.classHierarchy (Erasure.ofClass c).array =
        (r.classHierarchy (.ofClass c)).map Erasure.array ++ [r.object] ↔
      (r.isEnum (.ofClass c) = true →
        (Erasure.ofClass r.wellKnown.enumClass).array ∈
          r.classHierarchy (Erasure.ofClass c).array)) ∧
    ∀ s, (r.isEnum (.ofClass c) = true → s ≠ .ofClass r.wellKnown.enumClass) → ∀ t e,
      (r.Serves ⟨s, t⟩ (.ofClass c) e → r.Serves ⟨s.array, t⟩ (Erasure.ofClass c).array e) ∧
      (r.Serves ⟨t, s⟩ e (.ofClass c) → r.Serves ⟨t, s.array⟩ e (Erasure.ofClass c).array) := by
  have hmem := array_mem_classHierarchy_iff h (c := c) le_rfl (e := .ofClass r.wellKnown.enumClass)
    rfl
  have hclass := classHierarchy_of_own_boxes h hown le_rfl
  have hplain := isArray_of_mem_discovery h (c := c) le_rfl
  set known := r.discovery id r.supertypeCount (.ofClass c) with hknown
  constructor
  · rw [hmem, classHierarchy_array h c le_rfl, ← hknown, hclass]
    cases henum : r.isEnum (.ofClass c) with
    | false => simp
    | true =>
      set enums := Erasure.ofClass r.wellKnown.enumClass with henums
      have hplain_enums : ∀ e ∈ known ++ ([enums] ++ [r.object]), e.isArray = false := by
        intro e he
        by_cases heq : e = enums
        · rw [heq]
          rfl
        · exact hplain e (by simpa [heq] using he)
      rw [if_pos rfl, List.append_left_inj, map_array_inj
        (fun e he => hplain e (List.mem_eraseDups.mp he))
        (fun e he => hplain_enums e (List.mem_eraseDups.mp he))]
      constructor
      · intro hlists _
        rw [← List.mem_eraseDups, hlists]
        simp
      · intro hmet
        rcases List.mem_append.mp (hmet rfl) with hmet | hobject
        · exact (eraseDups_append_append_of_subset (by simpa using hmet)).symm
        · rw [List.mem_singleton.mp hobject, ← List.append_assoc]
          exact (eraseDups_append_of_subset (by simp)).symm
  · intro s hs t e
    have hserved : s ∈ r.classHierarchy (.ofClass c) →
        s.array ∈ r.classHierarchy (Erasure.ofClass c).array := by
      intro hmet
      have hmet : s ∈ known ++ [r.object] := by
        rw [hclass, List.mem_eraseDups] at hmet
        grind
      exact (array_mem_classHierarchy_iff h le_rfl (hplain s hmet)).mpr hmet
    rw [serves_iff, serves_iff, serves_iff, serves_iff]
    exact ⟨fun h => ⟨hserved h.1, h.2⟩, fun h => ⟨h.1, hserved h.2⟩⟩

/-- The arrays of array lists climb as the array lists do. -/
theorem classHierarchy_array_arrayLists :
    bootstrap.classHierarchy (Erasure.ofClass Bootstrap.wellKnown.arrayList).array =
      (bootstrap.classHierarchy (.ofClass Bootstrap.wellKnown.arrayList)).map Erasure.array ++
        [bootstrap.object] := by
  have hkinded : bootstrap.KindedInheritance := kindedInheritance_of_check (by decide +kernel)
  have hclosed : ∀ a ∈ bootstrap.classHierarchy (.ofClass Bootstrap.wellKnown.arrayList),
      ∀ s ∈ bootstrap.supertypes a,
        s ∈ bootstrap.classHierarchy (.ofClass Bootstrap.wellKnown.arrayList) := by
    decide +kernel
  have hboxed : ∀ a ∈ bootstrap.classHierarchy (.ofClass Bootstrap.wellKnown.arrayList),
      bootstrap.boxed a = a := by
    decide +kernel
  have hown : ∀ a, bootstrap.IsBelow (.ofClass Bootstrap.wellKnown.arrayList) a →
      bootstrap.boxed a = a :=
    fun a ha => hboxed a (mem_of_isBelow hclosed (by decide +kernel) ha)
  have hclass : bootstrap.isEnum (.ofClass Bootstrap.wellKnown.arrayList) = false := by
    decide +kernel
  refine (classHierarchy_array_eq_iff hkinded hown).1.mpr fun henum => ?_
  exact absurd (hclass.symm.trans henum) Bool.false_ne_true

/-- An enum `Color`. -/
def colors : Registry :=
  bootstrap.push
    { name := "Color", kind := .enumeration, enumConstants := ["RED"],
      superClass := some (.parameterized Bootstrap.wellKnown.enumClass [.ofClass ⟨37⟩] none) }

/-- Arrays of an enum are not converted as arrays of enums. -/
theorem enumArray_classHierarchy_ne :
    colors.KindedInheritance ∧ colors.isPrimitive (.ofClass ⟨37⟩) = false ∧
      colors.classHierarchy (Erasure.ofClass ⟨37⟩).array ≠
        (colors.classHierarchy (.ofClass ⟨37⟩)).map Erasure.array ++ [colors.object] ∧
      colors.Serves ⟨.ofClass Bootstrap.wellKnown.enumClass, colors.object⟩ (.ofClass ⟨37⟩)
        colors.object ∧
      ¬colors.Serves ⟨(Erasure.ofClass Bootstrap.wellKnown.enumClass).array, colors.object⟩
        (Erasure.ofClass ⟨37⟩).array colors.object := by
  refine ⟨kindedInheritance_of_check (by decide +kernel), by decide +kernel, by decide +kernel,
    ?_, ?_⟩
  · rw [serves_iff]
    decide +kernel
  · rw [serves_iff]
    decide +kernel

end Registry

end TypeConversion
