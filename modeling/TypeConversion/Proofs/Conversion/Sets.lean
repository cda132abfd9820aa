import TypeConversion.Proofs.Conversion.CollectionClass

/-!
# Sets keep the first of equal elements

The elements of a set are compared with those that were kept before them.  Equality of values is
symmetric and transitive, though a NaN, and whatever holds one, does not even equal itself.  So an
element equals one that was kept exactly if it equals any element before it, and what is kept are
the elements that equal none before them.

**Results**

* `Value.equals_symm`, `Value.equals_trans`: equality of values is a partial equivalence;
* `keepFirst_eq_firstOccurrences`: what is kept are the first occurrences;
* `keepFirst_keepFirst`: nothing more is left out a second time;
* `createCollection_keeps_first`: so it is for the sets that are built, and everything else is built
  of all its elements;
* `createCollection_keeps_first_nested`: a set of nested collections, nulls and numbers.
-/

namespace TypeConversion

/-! ## Equality -/

namespace Binary

variable {fmt : BinaryFormat} {x y z : Binary fmt}

theorem equals_iff :
    x.equals y = true ↔
      x.isNan = false ∧ y.isNan = false ∧ (x = y ∨ x.magnitude = 0 ∧ y.magnitude = 0) := by
  have hbits : x.bits = y.bits ↔ x = y := ⟨fun h => by cases x; cases y; simp_all, fun h => h ▸ rfl⟩
  simp [equals, hbits, and_assoc]

theorem equals_trans (hxy : x.equals y = true) (hyz : y.equals z = true) :
    x.equals z = true := by
  obtain ⟨hx, -, rfl | ⟨hx₀, hy₀⟩⟩ := equals_iff.mp hxy
  · exact hyz
  · obtain ⟨-, hz, rfl | ⟨-, hz₀⟩⟩ := equals_iff.mp hyz
    · exact hxy
    · exact equals_iff.mpr ⟨hx, hz, .inr ⟨hx₀, hz₀⟩⟩

end Binary

namespace Value

mutual

/-- Equality does not depend on which value comes first. -/
theorem equals_symm (a b : Value) : a.equals b = b.equals a := by
  -- Values of different shapes are different either way.
  cases a <;> cases b <;> try rfl
  case float.float => exact Binary.equals_symm _ _
  case double.double => exact Binary.equals_symm _ _
  case array.array c as c' bs => simp only [equals, eq_comm, equalsElements_symm as bs]
  case collection.collection c as c' bs => simp only [equals, eq_comm, equalsElements_symm as bs]
  all_goals simp only [equals, eq_comm]

theorem equalsElements_symm (as bs : List (Option Value)) :
    equalsElements as bs = equalsElements bs as := by
  match as, bs with
  | [], [] => rfl
  | [], _ :: _ => rfl
  | _ :: _, [] => rfl
  | a :: as, b :: bs =>
    simp only [equalsElements, equalsOption_symm a b, equalsElements_symm as bs]

theorem equalsOption_symm (a b : Option Value) : equalsOption a b = equalsOption b a := by
  match a, b with
  | none, none => rfl
  | none, some _ => rfl
  | some _, none => rfl
  | some a, some b => exact equals_symm a b

end

mutual

theorem equals_trans {a b c : Value} (hab : a.equals b = true) (hbc : b.equals c = true) :
    a.equals c = true := by
  -- Only values of one shape are equal.
  cases a <;> cases b <;> simp only [equals, Bool.false_eq_true] at hab <;> cases c <;>
    simp only [equals, Bool.false_eq_true] at hbc
  case float.float.float => exact Binary.equals_trans hab hbc
  case double.double.double => exact Binary.equals_trans hab hbc
  case array.array.array =>
    simp only [Bool.and_eq_true, decide_eq_true_eq] at hab hbc
    simpa [equals, hab.1, hbc.1] using equalsElements_trans hab.2 hbc.2
  case collection.collection.collection =>
    simp only [Bool.and_eq_true, decide_eq_true_eq] at hab hbc
    simpa [equals, hab.1, hbc.1] using equalsElements_trans hab.2 hbc.2
  all_goals simp_all [equals]

theorem equalsElements_trans {as bs cs : List (Option Value)} (hab : equalsElements as bs = true)
    (hbc : equalsElements bs cs = true) : equalsElements as cs = true := by
  match as, bs, cs with
  | [], [], [] => rfl
  | a :: as, b :: bs, c :: cs =>
    simp only [equalsElements, Bool.and_eq_true] at hab hbc ⊢
    exact ⟨equalsOption_trans hab.1 hbc.1, equalsElements_trans hab.2 hbc.2⟩

theorem equalsOption_trans {a b c : Option Value} (hab : equalsOption a b = true)
    (hbc : equalsOption b c = true) : equalsOption a c = true := by
  match a, b, c with
  | none, none, none => rfl
  | some a, some b, some c => exact equals_trans (a := a) (b := b) (c := c) hab hbc

end

end Value

/-! ## First occurrences -/

variable {e : Option Value} {kept earlier elements : List (Option Value)}

/-- The elements that equal none of those before them, in their order. -/
def firstOccurrences (elements : List (Option Value)) : List (Option Value) :=
  (elements.zipIdx.filter fun (element, place) =>
    (elements.take place).all fun earlier => !Value.equalsOption earlier element).map Prod.fst

/-- The elements that equal none of those before them, nor one of the earlier ones. -/
def newAfter (earlier elements : List (Option Value)) : List (Option Value) :=
  (elements.zipIdx.filter fun (element, place) =>
    !containsElement element (earlier ++ elements.take place)).map Prod.fst

theorem firstOccurrences_eq_newAfter (elements : List (Option Value)) :
    firstOccurrences elements = newAfter [] elements := by
  simp only [firstOccurrences, newAfter, containsElement, List.nil_append, List.not_any_eq_all_not]

theorem newAfter_cons (e : Option Value) :
    newAfter earlier (e :: elements) =
      if containsElement e earlier then newAfter (earlier ++ [e]) elements
      else e :: newAfter (earlier ++ [e]) elements := by
  have hrest : ((elements.zipIdx 1).filter fun (element, place) =>
      !containsElement element (earlier ++ (e :: elements).take place)).map Prod.fst =
        newAfter (earlier ++ [e]) elements := by
    rw [newAfter, List.zipIdx_succ, List.filter_map, List.map_map]
    simp [Function.comp_def]
  rw [newAfter, List.zipIdx_cons, List.filter_cons]
  cases h : containsElement e earlier <;> simp [h, hrest]

theorem containsElement_append (e : Option Value) (xs ys : List (Option Value)) :
    containsElement e (xs ++ ys) = (containsElement e xs || containsElement e ys) :=
  List.any_append

/-- What equals an element that equals one of a list equals one of the list. -/
theorem containsElement_of_equalsOption {e' : Option Value} (h : containsElement e kept = true)
    (he : Value.equalsOption e e' = true) : containsElement e' kept = true := by
  obtain ⟨k, hk, hke⟩ := List.any_eq_true.mp h
  exact List.any_eq_true.mpr ⟨k, hk, Value.equalsOption_trans hke he⟩

/--
What is kept equals none of all that came before.  The elements kept so far need not be all that came
before them, only the same elements must equal one of them.
-/
theorem keepFirst_eq_newAfter (h : ∀ e, containsElement e kept = containsElement e earlier) :
    keepFirst kept elements = newAfter earlier elements := by
  induction elements generalizing kept earlier with
  | nil => rfl
  | cons x rest ih =>
    rw [keepFirst, newAfter_cons, h x]
    cases hx : containsElement x earlier with
    | true =>
      refine ih fun e => ?_
      rw [containsElement_append, h e]
      -- What equals `x` equals one that was kept, as `x` does.
      cases he : Value.equalsOption x e with
      | true => simp [containsElement_of_equalsOption hx he]
      | false => simp [containsElement, he]
    | false =>
      rw [if_neg Bool.false_ne_true, if_neg Bool.false_ne_true]
      exact congrArg _ (ih fun e => by rw [containsElement_append, containsElement_append, h e])

/-- What is kept are the first occurrences. -/
theorem keepFirst_eq_firstOccurrences (elements : List (Option Value)) :
    keepFirst [] elements = firstOccurrences elements := by
  rw [firstOccurrences_eq_newAfter]
  exact keepFirst_eq_newAfter fun _ => rfl

/-! ## Keeping again -/

/-- Nothing more is left out the second time. -/
theorem keepFirst_keepFirst (kept elements : List (Option Value)) :
    keepFirst kept (keepFirst kept elements) = keepFirst kept elements := by
  induction elements generalizing kept with
  | nil => rfl
  | cons x rest ih =>
    rw [keepFirst]
    cases hx : containsElement x kept with
    | true => exact ih kept
    | false => rw [if_neg Bool.false_ne_true, keepFirst, hx, if_neg Bool.false_ne_true, ih]

namespace Registry

variable {r : Registry}

/--
Whatever collection is built for a type, a set has the first occurrences of its elements, any other
collection has all of them, and if it is built again from its own elements, nothing changes.
-/
theorem createCollection_keeps_first {target : Erasure} {elements : List (Option Value)} {v : Value}
    (h : r.createCollection target elements = .ok v) :
    ∃ c own, r.collectionClass target = .ok c ∧ v = .collection c own ∧
      (r.isSubclass (.ofClass r.wellKnown.set) (.ofClass c) = true →
        own = firstOccurrences elements) ∧
      (r.isSubclass (.ofClass r.wellKnown.set) (.ofClass c) = false → own = elements) ∧
      ∀ target', r.collectionClass target' = .ok c → r.createCollection target' own = .ok v := by
  obtain ⟨c, hc, rfl⟩ := createCollection_eq_ok_iff.mp h
  refine ⟨c, _, hc, rfl, fun hset => ?_, fun hset => ?_, fun target' hc' => ?_⟩
  · rw [if_pos hset, keepFirst_eq_firstOccurrences]
  · rw [hset, if_neg Bool.false_ne_true]
  · refine createCollection_eq_ok_iff.mpr ⟨c, hc', congrArg _ ?_⟩
    by_cases hset : r.isSubclass (.ofClass r.wellKnown.set) (.ofClass c) = true
    · rw [if_pos hset, if_pos hset, keepFirst_keepFirst]
    · rw [if_neg hset, if_neg hset]

/-- Nested collections, nulls and numbers. -/
def mixedElements : List (Option Value) :=
  let zero (negative : Bool) : Value :=
    .collection bootstrap.wellKnown.arrayList [some (.float (Binary.zero _ negative)), none]
  let nan : Value := .double (Binary.nan _)
  [some (zero false), none, some nan, some (zero true), some (.array (.ofClass ⟨0⟩) [some nan]),
    some nan, none, some (.int 1), some (.long 1), some (.int 1)]

/-- Of equal zeros, nulls and numbers the first is in the set, and all that is not equal to itself. -/
theorem createCollection_keeps_first_nested :
    bootstrap.createCollection (.ofClass bootstrap.wellKnown.set) mixedElements =
        .ok (.collection bootstrap.wellKnown.linkedHashSet (firstOccurrences mixedElements)) ∧
      firstOccurrences mixedElements = [0, 1, 2, 4, 5, 7, 8].filterMap (mixedElements[·]?) ∧
      ∃ c own, bootstrap.collectionClass (.ofClass bootstrap.wellKnown.set) = .ok c ∧
        Value.collection bootstrap.wellKnown.linkedHashSet (firstOccurrences mixedElements) =
          .collection c own ∧
        (bootstrap.isSubclass (.ofClass bootstrap.wellKnown.set) (.ofClass c) = true →
          own = firstOccurrences mixedElements) ∧
        (bootstrap.isSubclass (.ofClass bootstrap.wellKnown.set) (.ofClass c) = false →
          own = mixedElements) ∧
        ∀ target', bootstrap.collectionClass target' = .ok c →
          bootstrap.createCollection target' own =
            .ok (.collection bootstrap.wellKnown.linkedHashSet (firstOccurrences mixedElements)) := by
  have hclass : bootstrap.collectionClass (.ofClass bootstrap.wellKnown.set) =
      .ok bootstrap.wellKnown.linkedHashSet := by
    decide +kernel
  have hset : bootstrap.isSubclass (.ofClass bootstrap.wellKnown.set)
      (.ofClass bootstrap.wellKnown.linkedHashSet) = true := by
    decide +kernel
  have hbuilt : bootstrap.createCollection (.ofClass bootstrap.wellKnown.set) mixedElements =
      .ok (.collection bootstrap.wellKnown.linkedHashSet (firstOccurrences mixedElements)) :=
    createCollection_eq_ok_iff.mpr
      ⟨_, hclass, by rw [if_pos hset, keepFirst_eq_firstOccurrences]⟩
  exact ⟨hbuilt, rfl, createCollection_keeps_first hbuilt⟩

end Registry

end TypeConversion
