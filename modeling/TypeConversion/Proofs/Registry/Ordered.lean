import TypeConversion.Proofs.Registry.Acyclic
import TypeConversion.Registry.Bootstrap

/-!
# Registries in order

In many registries every class is entered after its supertypes, and the first bounds of all
variables are classes.  This can be checked, and such a registry has no circles.
-/

namespace TypeConversion

namespace TypeExpr

/-- The erasure of a type expression that names a class, or an array of one, by itself. -/
def head? : TypeExpr → Option Erasure
  | plain e => some e
  | parameterized raw _ _ => some (.ofClass raw)
  | genericArray _ | wildcard .. | typeVar _ => none

end TypeExpr

namespace Registry

/-- A type expression that names a class stands for nothing else. -/
theorem StandsFor.eq_of_head? {r : Registry} {t : TypeExpr} {e p : Erasure}
    (h : r.StandsFor t e) (ht : t.head? = some p) : e = p := by
  cases h <;> simp_all [TypeExpr.head?]

/-- A type expression that names an erasure stands for it. -/
theorem standsFor_of_head? (r : Registry) {t : TypeExpr} {e : Erasure} (ht : t.head? = some e) :
    r.StandsFor t e := by
  cases t with
  | plain a =>
    obtain rfl : a = e := Option.some.inj ht
    exact .plain a
  | parameterized raw args owner =>
    obtain rfl : Erasure.ofClass raw = e := Option.some.inj ht
    exact .parameterized raw args owner
  | genericArray _ | wildcard _ _ | typeVar _ => simp [TypeExpr.head?] at ht

/-- The declared supertypes of an erasure. -/
def supertypeExprs (r : Registry) (e : Erasure) : List TypeExpr :=
  (r.genericSuperclass e).toList ++ r.genericInterfaces e

theorem isSupertype_iff_mem (r : Registry) (e : Erasure) (t : TypeExpr) :
    r.IsSupertype e t ↔ t ∈ r.supertypeExprs e := by
  simp [IsSupertype, supertypeExprs]

/-- The supertypes of every class are classes that were entered before it. -/
def supertypesFirst (r : Registry) : Bool :=
  r.numbered.all fun (c, _) => (r.supertypeExprs (.ofClass c)).all fun t =>
    t.head?.any fun parent => !parent.isArray && parent.element.index < c.index

/-- The first bounds of all variables are classes, which lie in no enclosing type. -/
def boundsAreClasses (r : Registry) : Bool :=
  r.typeParams.all fun d => (r.firstBound? d.upperBounds).all fun b =>
    match b with
    | .plain _ | .parameterized _ _ none => true
    | .parameterized _ _ (some _) | .genericArray _ | .wildcard .. | .typeVar _ => false

theorem mem_numbered {r : Registry} {c : ClassId} {d : ClassDef} (h : r.class? c = some d) :
    (c, d) ∈ r.numbered := by
  refine List.mem_map.mpr ⟨(d, c.index.toNat), ?_, by simp⟩
  rw [List.mk_mem_zipIdx_iff_getElem?]
  simpa [class?] using h

/-- The supertypes of an array are the same three classes for all arrays. -/
theorem exists_of_isSupertype_of_isArray {r : Registry} {e : Erasure} (he : e.isArray = true)
    {t : TypeExpr} (ht : r.IsSupertype e t) :
    ∃ c ∈ [r.wellKnown.object, r.wellKnown.cloneable, r.wellKnown.serializable],
      t = .ofClass c := by
  rcases ht with ht | ht
  · have hobject : t = .ofClass r.wellKnown.object := by
      simpa [genericSuperclass, he, eq_comm] using ht
    exact ⟨_, by simp, hobject⟩
  · have hinterface : t = .ofClass r.wellKnown.cloneable ∨ t = .ofClass r.wellKnown.serializable :=
      by simpa [genericInterfaces, he] using ht
    rcases hinterface with h | h
    · exact ⟨_, by simp, h⟩
    · exact ⟨_, by simp, h⟩

/-- What is no array is a class. -/
theorem exists_eq_ofClass {e : Erasure} (he : e.isArray = false) : ∃ c, e = .ofClass c := by
  obtain ⟨c, dims⟩ := e
  have hdims : dims = 0 := by simpa [Erasure.isArray] using he
  exact ⟨c, by rw [hdims]; rfl⟩

/-- A class with supertypes is declared. -/
theorem exists_class?_of_isSupertype {r : Registry} {c : ClassId} {t : TypeExpr}
    (ht : r.IsSupertype (.ofClass c) t) : ∃ d, r.class? c = some d := by
  cases hd : r.class? c with
  | some d => exact ⟨d, rfl⟩
  | none => simp [IsSupertype, genericSuperclass, genericInterfaces, hd] at ht

/-- The place of an erasure in the order: arrays come after all classes. -/
def place (e : Erasure) : Nat := if e.isArray then UInt32.size else e.element.index.toNat

theorem place_ofClass_lt {e : Erasure} (he : e.isArray = true) (c : ClassId) :
    place (.ofClass c) < place e := by
  simpa [place, he] using c.index.toNat_lt

theorem place_lt_of_inherits {r : Registry} (h : r.supertypesFirst = true) {e parent : Erasure}
    (hp : r.Inherits e parent) : place parent < place e := by
  obtain ⟨t, ht, hstands⟩ := hp
  cases harray : e.isArray with
  | true =>
    obtain ⟨c, -, rfl⟩ := exists_of_isSupertype_of_isArray harray ht
    obtain rfl := hstands.eq_of_head? (p := .ofClass c) rfl
    exact place_ofClass_lt harray c
  | false =>
    obtain ⟨c, rfl⟩ := exists_eq_ofClass harray
    obtain ⟨d, hd⟩ := exists_class?_of_isSupertype ht
    have hall := List.all_eq_true.mp h (c, d) (mem_numbered hd)
    have ht := List.all_eq_true.mp hall t ((isSupertype_iff_mem ..).mp ht)
    cases hhead : t.head? with
    | none => simp [hhead] at ht
    | some p =>
      obtain rfl := hstands.eq_of_head? hhead
      have hp : parent.isArray = false ∧ parent.element.index < c.index := by
        simpa [hhead] using ht
      simpa [place, hp.1] using UInt32.lt_iff_toNat_lt.mp hp.2

/-- Where supertypes come first there are no circles in the inheritance. -/
theorem acyclicInheritance_of_supertypesFirst {r : Registry} (h : r.supertypesFirst = true) :
    r.AcyclicInheritance := by
  have hlt : ∀ {a b}, Relation.TransGen r.Inherits a b → place b < place a := by
    intro a b hab
    induction hab with
    | single hab => exact place_lt_of_inherits h hab
    | tail _ hbc ih => exact (place_lt_of_inherits h hbc).trans ih
  exact fun e he => Nat.lt_irrefl _ (hlt he)

/-- Where bounds are classes there are no circles in the bounds. -/
theorem acyclicBounds_of_boundsAreClasses {r : Registry} (h : r.boundsAreClasses = true) :
    r.AcyclicBounds := by
  -- what a variable unfolds to is a class, and that unfolds to nothing but its raw class
  have hclass : ∀ {v u}, Relation.TransGen r.Unfolds (.typeVar v) u →
      (∃ e, u = .plain e) ∨ ∃ c args, u = .parameterized c args none := by
    intro v u hu
    induction hu with
    | single hu =>
      cases hu with
      | typeVar hb =>
        rename_i b
        obtain ⟨d, hd, hb⟩ := Option.bind_eq_some_iff.mp hb
        have hmem : d ∈ r.typeParams := Array.mem_of_getElem? hd
        have hb := (Array.all_eq_true'.mp h) d hmem
        cases b with
        | plain e => exact .inl ⟨e, rfl⟩
        | parameterized c args owner =>
          cases owner with
          | none => exact .inr ⟨c, args, rfl⟩
          | some o => simp_all
        | _ => simp_all
    | tail _ hstep ih =>
      rcases ih with ⟨e, rfl⟩ | ⟨c, args, rfl⟩
      · cases hstep
      · cases hstep
        exact .inl ⟨_, rfl⟩
  intro v hv
  rcases hclass hv with ⟨e, he⟩ | ⟨c, args, he⟩ <;> simp at he

/-- A registry in order has no circles. -/
theorem acyclic_of_ordered {r : Registry} (hs : r.supertypesFirst = true)
    (hb : r.boundsAreClasses = true) : r.Acyclic :=
  ⟨acyclicInheritance_of_supertypesFirst hs, acyclicBounds_of_boundsAreClasses hb⟩

theorem bootstrap_supertypesFirst : Registry.bootstrap.supertypesFirst = true := by
  decide +kernel

example : Registry.bootstrap.boundsAreClasses = true := by decide +kernel

end Registry

end TypeConversion
