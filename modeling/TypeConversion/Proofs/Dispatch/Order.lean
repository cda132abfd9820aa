import TypeConversion.Proofs.Dispatch.Hierarchy
import TypeConversion.Proofs.FirstOccurrences
import TypeConversion.Proofs.Registry.Search
import Mathlib.Combinatorics.Pigeonhole

/-!
# The order of dispatch, without a queue

The chain of superclasses, then the interfaces breadth first: this is the order in which a hierarchy
is climbed, said without the queue that the climb changes at both ends.  The first round of a
discovery is the chain of superclasses of its start, every further round consists of the interfaces
of the round before it, and of all that is discovered only the first occurrences count.

A chain is followed for a number of steps, and so are the rounds.  However the inheritance goes
round in circles, `supertypeCount` many are enough: a chain that long has met some superclass twice,
and no more entries than that can be discovered.

Entries have the supertypes of their forms.  The forms of classes are their boxes; the components of
arrays are their own forms.

**Results**

* `KindedClimb.superclassChain_closed`: the chains are long enough;
* `IsDiscovery.eq_discovery`: a list of which every entry is the next that the entries before it
  lead to is what is discovered in rounds.
-/

namespace TypeConversion

namespace Registry

variable {r : Registry}

/-! ## The order -/

/-- The superclass a number of steps above an entry, where entries have those of their forms. -/
def superclassAfter (r : Registry) (form : Erasure → Erasure) : Nat → Erasure → Option Erasure
  | 0, e => some e
  | k + 1, e => (r.climbedSuperclass? (form e)).bind (r.superclassAfter form k)

/-- An entry and the superclasses at most a number of steps above it, in order. -/
def superclassChain (r : Registry) (form : Erasure → Erasure) (n : Nat) (e : Erasure) :
    List Erasure :=
  (List.range (n + 1)).filterMap fun k => r.superclassAfter form k e

/-- The interfaces of an entry in order, each with its superclasses. -/
def discovered (r : Registry) (form : Erasure → Erasure) (n : Nat) (e : Erasure) : List Erasure :=
  (r.interfaces (form e)).flatMap (r.superclassChain form n)

/-- What a breadth-first search for interfaces discovers in a round. -/
def discoveryRound (r : Registry) (form : Erasure → Erasure) (n : Nat) (start : Erasure) :
    Nat → List Erasure
  | 0 => r.superclassChain form n start
  | k + 1 => (r.discoveryRound form n start k).flatMap (r.discovered form n)

/-- All that the rounds up to a number discover, in order. -/
def discovery (r : Registry) (form : Erasure → Erasure) (n : Nat) (start : Erasure) :
    List Erasure :=
  (List.range (n + 1)).flatMap (r.discoveryRound form n start)

/--
The order of dispatch for a type: its box and the superclasses of that, the interfaces breadth
first, the class of enums for an enum, and the top class, each where it occurs first.
-/
def dispatchOrder (r : Registry) (form : Erasure → Erasure) (n : Nat) (e : Erasure) :
    List Erasure :=
  (r.discovery form n (r.boxed e) ++
    ((if r.isEnum e then [Erasure.ofClass r.wellKnown.enumClass] else []) ++ [r.object])).eraseDups

/-! ## Chains of superclasses -/

section Chains

variable {form : Erasure → Erasure} {n : Nat} {e s x : Erasure}

theorem superclassAfter_add (i k : Nat) (e : Erasure) :
    r.superclassAfter form (i + k) e =
      (r.superclassAfter form i e).bind (r.superclassAfter form k) := by
  induction i generalizing e with
  | zero => rw [Nat.zero_add, superclassAfter, Option.bind_some]
  | succ i ih =>
    rw [Nat.succ_add, superclassAfter, superclassAfter, Option.bind_assoc]
    congr 1
    funext s
    exact ih s

theorem superclassAfter_succ (k : Nat) (e : Erasure) :
    r.superclassAfter form (k + 1) e =
      (r.superclassAfter form k e).bind fun s => r.climbedSuperclass? (form s) := by
  rw [superclassAfter_add]
  congr 1
  funext s
  simp [superclassAfter]

theorem mem_superclassChain_iff :
    x ∈ r.superclassChain form n e ↔ ∃ k ≤ n, r.superclassAfter form k e = some x := by
  simp only [superclassChain, List.mem_filterMap, List.mem_range, Nat.lt_succ_iff]

@[simp] theorem mem_superclassChain_self : e ∈ r.superclassChain form n e :=
  mem_superclassChain_iff.mpr ⟨0, n.zero_le, rfl⟩

theorem superclassChain_succ (n : Nat) (e : Erasure) :
    r.superclassChain form (n + 1) e =
      e :: (r.climbedSuperclass? (form e)).elim [] (r.superclassChain form n) := by
  rw [superclassChain, List.range_succ_eq_map, List.filterMap_cons, List.filterMap_map]
  cases hs : r.climbedSuperclass? (form e) with
  | none => simp [superclassAfter, Function.comp_def, hs]
  | some s => simp [superclassAfter, Function.comp_def, hs, superclassChain]

theorem singleton_prefix_superclassChain (n : Nat) (e : Erasure) :
    [e] <+: r.superclassChain form n e := by
  rw [superclassChain, List.range_succ_eq_map, List.filterMap_cons]
  exact ⟨_, rfl⟩

theorem superclassChain_prefix (n : Nat) (e : Erasure) :
    r.superclassChain form n e <+: r.superclassChain form (n + 1) e := by
  rw [superclassChain, superclassChain, List.range_succ (n := n + 1), List.filterMap_append]
  exact List.prefix_append ..

/-- Entries that hold the superclasses of each other hold their chains. -/
theorem superclassChain_subset {entries : List Erasure}
    (hclosed : ∀ a ∈ entries, ∀ s, r.climbedSuperclass? (form a) = some s → s ∈ entries)
    (he : e ∈ entries) : r.superclassChain form n e ⊆ entries := by
  intro x hx
  rcases mem_superclassChain_iff.mp hx with ⟨k, -, hk⟩
  clear hx
  induction k generalizing x with
  | zero => exact Option.some.inj hk ▸ he
  | succ k ih =>
    rw [superclassAfter_succ] at hk
    rcases Option.bind_eq_some_iff.mp hk with ⟨s, hs, hk⟩
    exact hclosed s (ih hs) x hk

end Chains

/-! ## What is climbed -/

/-- Superclasses other than the top class are no arrays and no interfaces; interfaces are. -/
structure KindedInheritance (r : Registry) : Prop where
  superclasses : ∀ c s, r.superclass? (.ofClass c) = some s → s ≠ r.object →
    s.isArray = false ∧ r.isInterface s = false
  interfaces : ∀ c, ∀ i ∈ r.interfaces (.ofClass c), r.isInterface i = true

/-- Whether superclasses and interfaces are of the kinds that they should be. -/
def hasKindedInheritance (r : Registry) : Bool :=
  r.numbered.all fun (c, _) =>
    ((r.superclass? (.ofClass c)).all fun s => s = r.object || !s.isArray && !r.isInterface s) &&
    (r.interfaces (.ofClass c)).all r.isInterface

theorem kindedInheritance_of_check (h : r.hasKindedInheritance = true) : r.KindedInheritance := by
  have hclass : ∀ c t, r.IsSupertype (.ofClass c) t →
      ((r.superclass? (.ofClass c)).all fun s =>
        s = r.object || !s.isArray && !r.isInterface s) = true ∧
      (r.interfaces (.ofClass c)).all r.isInterface = true := by
    intro c t ht
    rcases exists_class?_of_isSupertype ht with ⟨d, hd⟩
    exact Bool.and_eq_true_iff.mp (List.all_eq_true.mp h (c, d) (mem_numbered hd))
  constructor
  · intro c s hs hobject
    rcases Option.bind_eq_some_iff.mp hs with ⟨t, ht, -⟩
    have hsuper := (hclass c t (.inl ht)).1
    simpa [hs, hobject] using hsuper
  · intro c i hi
    rcases List.mem_filterMap.mp hi with ⟨t, ht, -⟩
    exact List.all_eq_true.mp (hclass c t (.inr ht)).2 i hi

/-- A superclass is named by a class unless it is the top class. -/
theorem mem_namedSupertypes_of_superclass? {c : ClassId} {s : Erasure}
    (hs : r.superclass? (.ofClass c) = some s) (hobject : s ≠ r.object) :
    s ∈ r.namedSupertypes := by
  rcases Option.bind_eq_some_iff.mp hs with ⟨t, ht, hraw⟩
  rcases exists_class?_of_isSupertype (.inl ht) with ⟨d, hd⟩
  have hmem : d ∈ r.classes.toList := Array.mem_toList_iff.mpr (Array.mem_of_getElem? hd)
  have ht := superClass_of_genericSuperclass hd ht
  cases hsuper : d.superClass with
  | none =>
    obtain rfl : TypeExpr.ofClass r.wellKnown.object = t := by simpa [hsuper] using ht
    rw [rawErasure_of_head? r rfl] at hraw
    exact absurd (Option.some.inj hraw).symm hobject
  | some u =>
    obtain rfl : u = t := by simpa [hsuper] using ht
    exact List.mem_flatMap.mpr ⟨d, hmem, List.mem_filterMap.mpr ⟨u, by simp [hsuper], hraw⟩⟩

/-- An interface is named by a class. -/
theorem mem_namedSupertypes_of_mem_interfaces {c : ClassId} {i : Erasure}
    (hi : i ∈ r.interfaces (.ofClass c)) : i ∈ r.namedSupertypes := by
  rcases List.mem_filterMap.mp hi with ⟨t, ht, hraw⟩
  rcases exists_class?_of_isSupertype (.inr ht) with ⟨d, hd⟩
  have hmem : d ∈ r.classes.toList := Array.mem_toList_iff.mpr (Array.mem_of_getElem? hd)
  have ht : t ∈ d.interfaces := by simpa [genericInterfaces, hd] using ht
  refine List.mem_flatMap.mpr ⟨d, hmem, List.mem_filterMap.mpr ⟨t, ?_, hraw⟩⟩
  exact List.mem_append_right _ ht

theorem isArray_of_isInterface {i : Erasure} (h : r.isInterface i = true) : i.isArray = false := by
  cases hi : i.isArray with
  | false => rfl
  | true => simp [isInterface, hasKind, hi] at h

/--
What entries climb to if they have the supertypes of their forms: classes that are named somewhere,
superclasses that are no interfaces, and interfaces.
-/
structure KindedClimb (r : Registry) (form : Erasure → Erasure) : Prop where
  superclass : ∀ {e s}, e.isArray = false → r.climbedSuperclass? (form e) = some s →
    s ∈ r.namedSupertypes ∧ s.isArray = false ∧ r.isInterface s = false
  interface : ∀ {e i}, e.isArray = false → i ∈ r.interfaces (form e) →
    i ∈ r.namedSupertypes ∧ r.isInterface i = true

theorem KindedInheritance.climb (h : r.KindedInheritance) {form : Erasure → Erasure}
    (hform : ∀ e, e.isArray = false → (form e).isArray = false) : r.KindedClimb form := by
  constructor
  · intro e s he hs
    rcases exists_eq_ofClass (hform e he) with ⟨c, hc⟩
    rw [hc] at hs
    rcases Option.filter_eq_some_iff.mp hs with ⟨hsuper, hkept⟩
    have hobject : s ≠ r.object := by simp_all
    exact ⟨mem_namedSupertypes_of_superclass? hsuper hobject, h.superclasses c s hsuper hobject⟩
  · intro e i he hi
    rcases exists_eq_ofClass (hform e he) with ⟨c, hc⟩
    rw [hc] at hi
    exact ⟨mem_namedSupertypes_of_mem_interfaces hi, h.interfaces c i hi⟩

theorem KindedInheritance.climb_boxed (h : r.KindedInheritance) : r.KindedClimb r.boxed :=
  h.climb fun _ => isArray_boxed r

namespace KindedClimb

variable {form : Erasure → Erasure} {n : Nat} {e s i a x : Erasure}

theorem superclassAfter (h : r.KindedClimb form) (he : e.isArray = false) {k : Nat}
    (hx : r.superclassAfter form k e = some x) :
    x.isArray = false ∧ (x = e ∨ x ∈ r.namedSupertypes) := by
  induction k generalizing x with
  | zero =>
    obtain rfl : e = x := Option.some.inj hx
    exact ⟨he, .inl rfl⟩
  | succ k ih =>
    rw [superclassAfter_succ] at hx
    rcases Option.bind_eq_some_iff.mp hx with ⟨a, ha, hx⟩
    rcases h.superclass (ih ha).1 hx with ⟨hnamed, hplain, -⟩
    exact ⟨hplain, .inr hnamed⟩

/--
As many steps as there are supertypes lead through the whole chain: with one step more, some
superclass comes twice on the way.
-/
theorem superclassChain_closed (h : r.KindedClimb form) (hn : r.supertypeCount ≤ n)
    (he : e.isArray = false) (ha : a ∈ r.superclassChain form n e)
    (hs : r.climbedSuperclass? (form a) = some s) : s ∈ r.superclassChain form n e := by
  rcases mem_superclassChain_iff.mp ha with ⟨k, hk, hka⟩
  have hks : r.superclassAfter form (k + 1) e = some s := by
    rw [superclassAfter_succ, hka, Option.bind_some, hs]
  refine mem_superclassChain_iff.mpr ?_
  rcases Nat.lt_or_ge k n with hlt | hge
  · exact ⟨k + 1, hlt, hks⟩
  obtain rfl : k = n := Nat.le_antisymm hk hge
  have hsplit : ∀ j ≤ k + 1, (r.superclassAfter form j e).bind
      (r.superclassAfter form (k + 1 - j)) = some s := by
    intro j hj
    rw [← superclassAfter_add, Nat.add_sub_cancel' hj, hks]
  have hmaps : Set.MapsTo (fun j => r.superclassAfter form j e) (Finset.range (k + 2))
      (((e :: r.namedSupertypes).map some).toFinset : Set (Option Erasure)) := by
    intro j hj
    have hj : j ≤ k + 1 := Nat.lt_succ_iff.mp (Finset.mem_range.mp hj)
    rcases Option.bind_eq_some_iff.mp (hsplit j hj) with ⟨x, hx, -⟩
    simpa [hx] using (h.superclassAfter he hx).2
  have hcard : ((e :: r.namedSupertypes).map some).toFinset.card < (Finset.range (k + 2)).card := by
    have hnamed := r.length_namedSupertypes_le
    have hle := List.toFinset_card_le ((e :: r.namedSupertypes).map some)
    rw [List.length_map, List.length_cons] at hle
    rw [Finset.card_range]
    omega
  -- The steps between two occurrences may be left out.
  have hshort : ∀ i j, i < j → j ≤ k + 1 →
      r.superclassAfter form i e = r.superclassAfter form j e →
      ∃ m ≤ k, r.superclassAfter form m e = some s := by
    intro i j hij hj heq
    refine ⟨i + (k + 1 - j), by omega, ?_⟩
    rw [superclassAfter_add, heq, hsplit j hj]
  rcases Finset.exists_ne_map_eq_of_card_lt_of_maps_to hcard hmaps with ⟨i, hi, j, hj, hne, heq⟩
  have hi : i ≤ k + 1 := Nat.lt_succ_iff.mp (Finset.mem_range.mp hi)
  have hj : j ≤ k + 1 := Nat.lt_succ_iff.mp (Finset.mem_range.mp hj)
  rcases Nat.lt_or_gt_of_ne hne with hlt | hgt
  · exact hshort i j hlt hj heq
  · exact hshort j i hgt hi heq.symm

/-- The chain of an entry is the entry, and the chain of its superclass. -/
theorem eraseDups_superclassChain (h : r.KindedClimb form) (hn : r.supertypeCount ≤ n)
    (he : e.isArray = false) :
    (r.superclassChain form n e).eraseDups =
      (e :: (r.climbedSuperclass? (form e)).elim [] (r.superclassChain form n)).eraseDups := by
  rw [← superclassChain_succ]
  rcases r.superclassChain_prefix n e with ⟨rest, hrest⟩
  have hsubset : r.superclassChain form (n + 1) e ⊆ r.superclassChain form n e :=
    superclassChain_subset (fun a ha s hs => h.superclassChain_closed hn he ha hs)
      mem_superclassChain_self
  rw [← hrest] at hsubset ⊢
  exact (eraseDups_append_of_subset fun x hx => hsubset (List.mem_append_right _ hx)).symm

end KindedClimb

/-! ## Discovery -/

/--
A list in which every entry is the next that the entries before it lead to, until they lead to no
more.
-/
structure IsDiscovery (first : List Erasure) (next : Erasure → List Erasure)
    (entries : List Erasure) : Prop where
  complete : entries = (first ++ entries.flatMap next).eraseDups
  follows : ∀ known x, known ++ [x] <+: entries →
    known ++ [x] <+: (first ++ known.flatMap next).eraseDups

theorem eraseDups_discovery_succ (form : Erasure → Erasure) (n : Nat) (start : Erasure) (k : Nat) :
    ((List.range (k + 1)).flatMap (r.discoveryRound form n start)).eraseDups =
      (r.superclassChain form n start ++
        ((List.range k).flatMap (r.discoveryRound form n start)).eraseDups.flatMap
          (r.discovered form n)).eraseDups := by
  have hrounds : (List.range (k + 1)).flatMap (r.discoveryRound form n start) =
      r.superclassChain form n start ++
        ((List.range k).flatMap (r.discoveryRound form n start)).flatMap (r.discovered form n) := by
    rw [List.range_succ_eq_map, List.flatMap_cons, List.flatMap_map, List.flatMap_assoc]
    rfl
  rw [hrounds]
  exact eraseDups_append_congr rfl (eraseDups_flatMap_eraseDups ..).symm

/-- A discovery is what its rounds discover, of which there are at most as many as entries. -/
theorem IsDiscovery.eq_discovery {form : Erasure → Erasure} {n : Nat} {start : Erasure}
    {entries : List Erasure}
    (h : IsDiscovery (r.superclassChain form n start) (r.discovered form n) entries)
    (hn : entries.length ≤ n + 1) : entries = (r.discovery form n start).eraseDups := by
  have hwithin : ∀ k,
      ((List.range k).flatMap (r.discoveryRound form n start)).eraseDups <+: entries := by
    intro k
    induction k with
    | zero => exact List.nil_prefix
    | succ k ih =>
      rw [eraseDups_discovery_succ, h.complete]
      exact eraseDups_prefix ((List.prefix_append_right_inj _).mpr (ih.flatMap _))
  have hreached : ∀ k, entries.take k <+:
      ((List.range k).flatMap (r.discoveryRound form n start)).eraseDups := by
    intro k
    induction k with
    | zero => exact List.nil_prefix
    | succ k ih =>
      rcases Nat.lt_or_ge k entries.length with hk | hk
      · rw [List.take_succ_eq_append_getElem hk, eraseDups_discovery_succ]
        refine (h.follows _ _ ?_).trans ?_
        · rw [← List.take_succ_eq_append_getElem hk]
          exact List.take_prefix ..
        · exact eraseDups_prefix ((List.prefix_append_right_inj _).mpr (ih.flatMap _))
      · -- Nothing is left to be discovered.
        rw [List.take_of_length_le hk] at ih
        rw [List.take_of_length_le (by omega), eraseDups_discovery_succ]
        conv_lhs => rw [h.complete]
        exact eraseDups_prefix ((List.prefix_append_right_inj _).mpr (ih.flatMap _))
  refine List.IsPrefix.eq_of_length_le ?_ (hwithin (n + 1)).length_le
  rw [← List.take_of_length_le hn]
  exact hreached (n + 1)

end Registry

end TypeConversion
