import TypeConversion.Node.Resolve
import Mathlib.Data.Fintype.EquivFin
import Mathlib.Data.Finite.Prod
import Mathlib.Order.WellFounded
import Mathlib.Order.RelClasses

/-!
# Registries without circles

Two graphs keep walks over nodes from going round in circles.  The first leads from an erasure to
what its declared supertypes may stand for; a type variable may stand for anything.  The second
leads from a type expression to those that are met in it, or in the bounds of its variables, without
going into type arguments.

There are finitely many erasures and type variables, so that a graph without circles is
well-founded.
-/

namespace TypeConversion

instance : Finite ClassId :=
  Finite.of_injective (fun c => c.index.toFin) fun a b h => by
    cases a
    cases b
    simpa [UInt32.toFin_inj] using h

instance : Finite TypeVarId :=
  Finite.of_injective (fun v => v.index.toFin) fun a b h => by
    cases a
    cases b
    simpa [UInt32.toFin_inj] using h

instance : Finite Erasure :=
  Finite.of_injective (fun e => (e.element, e.dims.toFin)) fun a b h => by
    cases a
    cases b
    simpa [UInt8.toFin_inj] using h

/-- On a finite type a relation without circles is well-founded. -/
theorem wellFounded_of_acyclic {α : Type} [Finite α] (step : α → α → Prop)
    (h : ∀ a, ¬Relation.TransGen step a a) :
    WellFounded fun b a => Relation.TransGen step a b := by
  have htrans : IsTrans α fun b a => Relation.TransGen step a b :=
    ⟨fun _ _ _ hab hbc => Relation.TransGen.trans hbc hab⟩
  have hirrefl : Std.Irrefl fun b a : α => Relation.TransGen step a b := ⟨h⟩
  exact Finite.wellFounded_of_trans_of_irrefl _

namespace TypeExpr

mutual

/-- The size of a type expression, in which every array dimension counts. -/
def weight : TypeExpr → Nat
  | plain e => e.dims.toNat + 1
  | parameterized _ args owner => weightAll args + weightOption owner + 2
  | genericArray component => weight component + 1
  | wildcard upper lower => weightAll upper + weightAll lower + 1
  | typeVar _ => 1

/-- The size of all type expressions of a list. -/
def weightAll : List TypeExpr → Nat
  | [] => 0
  | t :: rest => weight t + weightAll rest

/-- The size of an optional type expression. -/
def weightOption : Option TypeExpr → Nat
  | none => 0
  | some t => weight t

end

theorem weight_pos (t : TypeExpr) : 0 < t.weight := by
  cases t <;> simp [weight]

theorem weight_le_weightAll {t : TypeExpr} {ts : List TypeExpr} (h : t ∈ ts) :
    t.weight ≤ weightAll ts := by
  induction ts with
  | nil => simp at h
  | cons head rest ih =>
    rw [weightAll]
    rcases List.mem_cons.mp h with rfl | h
    · omega
    · have := ih h
      omega

@[simp] theorem weight_ofClass (c : ClassId) : (ofClass c).weight = 1 := by
  simp [ofClass, weight]

end TypeExpr

namespace Registry

theorem firstBound?_mem {r : Registry} {bounds : List TypeExpr} {b : TypeExpr}
    (h : r.firstBound? bounds = some b) : b ∈ bounds := by
  cases bounds with
  | nil => simp [firstBound?] at h
  | cons head rest =>
    rw [firstBound?] at h
    by_cases hobject : head = .ofClass r.wellKnown.object
    · simp [hobject] at h
    · obtain rfl : head = b := by simpa [hobject] using h
      exact List.mem_cons_self

theorem wildcardBound?_mem {r : Registry} {upper lower : List TypeExpr} {b : TypeExpr}
    (h : r.wildcardBound? upper lower = some b) : b ∈ upper ∨ b ∈ lower := by
  rw [wildcardBound?, Option.or_eq_some_iff] at h
  rcases h with h | ⟨-, h⟩
  · exact .inl (firstBound?_mem h)
  · exact .inr (firstBound?_mem h)

/-- The erasures that a type expression may stand for, where a variable may stand for any. -/
inductive StandsFor (r : Registry) : TypeExpr → Erasure → Prop
  | plain (e : Erasure) : StandsFor r (.plain e) e
  | parameterized (raw : ClassId) (args : List TypeExpr) (owner : Option TypeExpr) :
      StandsFor r (.parameterized raw args owner) (.ofClass raw)
  | genericArray {component : TypeExpr} {e array : Erasure} (h : StandsFor r component e)
      (ha : e.array? = some array) : StandsFor r (.genericArray component) array
  | wildcard {upper lower : List TypeExpr} {bound : TypeExpr} {e : Erasure}
      (hb : r.wildcardBound? upper lower = some bound) (h : StandsFor r bound e) :
      StandsFor r (.wildcard upper lower) e
  | typeVar (v : TypeVarId) (e : Erasure) : StandsFor r (.typeVar v) e

/-- A declared supertype of an erasure. -/
def IsSupertype (r : Registry) (e : Erasure) (t : TypeExpr) : Prop :=
  r.genericSuperclass e = some t ∨ t ∈ r.genericInterfaces e

/-- A declared supertype of an erasure may stand for another. -/
def Inherits (r : Registry) (e parent : Erasure) : Prop :=
  ∃ t, r.IsSupertype e t ∧ r.StandsFor t parent

/-- No erasure inherits from itself. -/
def AcyclicInheritance (r : Registry) : Prop := ∀ e, ¬Relation.TransGen r.Inherits e e

/-- A type expression met in another, or in its bound, without going into type arguments. -/
inductive Unfolds (r : Registry) : TypeExpr → TypeExpr → Prop
  | component (t : TypeExpr) : Unfolds r (.genericArray t) t
  | raw (c : ClassId) (args : List TypeExpr) (owner : Option TypeExpr) :
      Unfolds r (.parameterized c args owner) (.ofClass c)
  | owner (c : ClassId) (args : List TypeExpr) (o : TypeExpr) :
      Unfolds r (.parameterized c args (some o)) o
  | wildcard {upper lower : List TypeExpr} {bound : TypeExpr}
      (h : r.wildcardBound? upper lower = some bound) : Unfolds r (.wildcard upper lower) bound
  | typeVar {v : TypeVarId} {bound : TypeExpr} (h : r.declaredBound? v = some bound) :
      Unfolds r (.typeVar v) bound

/-- No type variable is met again in what its first bound unfolds to. -/
def AcyclicBounds (r : Registry) : Prop :=
  ∀ v, ¬Relation.TransGen r.Unfolds (.typeVar v) (.typeVar v)

theorem AcyclicInheritance.wellFounded {r : Registry} (h : r.AcyclicInheritance) :
    WellFounded fun parent e => r.Inherits e parent :=
  Subrelation.wf (fun hstep => Relation.TransGen.single hstep) (wellFounded_of_acyclic r.Inherits h)

/-- What a type expression unfolds to is smaller, unless it is a variable. -/
theorem Unfolds.weight_lt {r : Registry} {t u : TypeExpr} (h : r.Unfolds t u) :
    u.weight < t.weight ∨ ∃ v, t = .typeVar v := by
  refine (em (∃ v, t = .typeVar v)).symm.imp_left fun hvar => ?_
  cases h with
  | component t => simp [TypeExpr.weight]
  | raw c args owner =>
    rw [TypeExpr.weight_ofClass, TypeExpr.weight]
    omega
  | owner c args o =>
    rw [TypeExpr.weight, TypeExpr.weightOption]
    omega
  | wildcard h =>
    rw [TypeExpr.weight]
    rcases wildcardBound?_mem h with h | h
    · have := TypeExpr.weight_le_weightAll h
      omega
    · have := TypeExpr.weight_le_weightAll h
      omega
  | typeVar h => exact absurd ⟨_, rfl⟩ hvar

/-- Type expressions unfold to an end if the variables do that are met in them. -/
theorem acc_unfolds {r : Registry} (t : TypeExpr)
    (h : ∀ v, Relation.ReflTransGen r.Unfolds t (.typeVar v) →
      Acc (fun u t => r.Unfolds t u) (.typeVar v)) :
    Acc (fun u t => r.Unfolds t u) t := by
  induction hw : t.weight using Nat.strong_induction_on generalizing t with
  | _ w ih =>
    subst hw
    refine Acc.intro t fun u hu => ?_
    rcases hu.weight_lt with hlt | ⟨v, rfl⟩
    · exact ih u.weight hlt u (fun v hv => h v (hv.head hu)) rfl
    · exact (h v .refl).inv hu

/-- Without circles in the bounds, unfolding comes to an end. -/
theorem AcyclicBounds.wellFounded {r : Registry} (h : r.AcyclicBounds) :
    WellFounded fun u t => r.Unfolds t u := by
  let leads (v w : TypeVarId) : Prop := Relation.TransGen r.Unfolds (.typeVar v) (.typeVar w)
  have hleads : ∀ {v w}, Relation.TransGen leads v w → leads v w := by
    intro v w hvw
    induction hvw with
    | single h => exact h
    | tail _ h ih => exact ih.trans h
  have hwf := wellFounded_of_acyclic leads fun v hv => h v (hleads hv)
  have hvar : ∀ v, Acc (fun u t => r.Unfolds t u) (.typeVar v) := by
    intro v
    induction v using hwf.induction with
    | _ v ih =>
      refine Acc.intro _ fun u hu => acc_unfolds u fun w hw => ih w ?_
      exact .single (Relation.TransGen.head' hu hw)
  exact ⟨fun t => acc_unfolds t fun v _ => hvar v⟩

/-- A registry without circles in its inheritance or in the bounds of its variables. -/
structure Acyclic (r : Registry) : Prop where
  inheritance : r.AcyclicInheritance
  bounds : r.AcyclicBounds

end Registry

end TypeConversion
