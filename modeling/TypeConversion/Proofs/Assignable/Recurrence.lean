import TypeConversion.Proofs.Assignable.Inversion
import TypeConversion.Proofs.Node.Weight
import TypeConversion.Proofs.Registry.Ordered
import Mathlib.Data.Fintype.Pigeonhole
import Mathlib.Order.Interval.Finset.Nat

/-!
# Checks that never end

The guard of a check remembers, for each of our expressions, only the one it was compared with last,
and it is dropped where arrays and wildcards are entered.  So a check need not end.  Along an
infinite branch all expressions are bounded in weight, so that the same two are compared again and
again.

**Results**

* `exists_recurrence`: an infinite branch comes back to two expressions again and again;
* `isAssignableFrom_answers_iff`: the check of two nodes answers exactly when no branch does so;
* `arrayBound_cutOff`: the check of a variable bounded by `Comparable<T[]>` never answers.
-/

namespace TypeConversion

namespace Node

open Walk

variable {r : Registry} {k : Nat}

/-- All nodes that a plan goes on with are within a bound. -/
def Plan.Fits (k : Nat) : Plan → Prop
  | .decided _ => True
  | .components c otherComponent => (∀ n ∈ c, n.Fits k) ∧ ∀ n ∈ otherComponent, n.Fits k
  | .bounds _ ours theirs => (∀ n ∈ ours, n.Fits k) ∧ ∀ n ∈ theirs, n.Fits k
  | .arguments pairs => ∀ p ∈ pairs, (∀ n ∈ p.1, n.Fits k) ∧ ∀ n ∈ p.2, n.Fits k

theorem fits_of_wildcardBounds (hb : r.AcyclicBounds) (hr : r.Fits k) {n : Node}
    (hn : n.Fits k) {limit : Nat} {found : WildcardBounds}
    (h : wildcardBounds r limit n = some (some found)) : ∀ b ∈ found.bounds, b.Fits k := by
  refine fits_of_steps hb hr
    (fun m a => Finds (fun limit => wildcardBoundsFrom r n limit m) a)
    (fun a => ∀ w ∈ a, ∀ b ∈ w.bounds, b.Fits k)
    (fun m => m.expr.isWildcard = true) ?_ ?_ hn (.intro limit h) found rfl
  · intro m a hm hwild h w hw b hmem
    obtain rfl : a = some w := hw
    have hweight := hm.expr
    cases he : m.expr with
    | wildcard upper lower =>
      rw [he, TypeExpr.weight] at hweight
      obtain rfl := Option.some.inj ((wildcardBoundsFrom_of_wildcard he _).mp h)
      have hsome : ∃ t, b = n.sibling t ∧ t.weight ≤ k := by
        cases lower with
        | cons t rest =>
          obtain ⟨u, hu, rfl⟩ : ∃ u ∈ t :: rest, n.sibling u = b := by
            cases upper <;> exact List.mem_map.mp hmem
          have := TypeExpr.weight_le_weightAll hu
          exact ⟨u, rfl, by omega⟩
        | nil =>
          cases upper with
          | nil => exact ⟨_, by simpa [boundsOf] using hmem, hr.ofClass _⟩
          | cons t rest =>
            obtain ⟨u, hu, rfl⟩ : ∃ u ∈ t :: rest, n.sibling u = b := List.mem_map.mp hmem
            have := TypeExpr.weight_le_weightAll hu
            exact ⟨u, rfl, by omega⟩
      obtain ⟨t, rfl, ht⟩ := hsome
      exact hn.sibling ht
    | _ => simp [he, TypeExpr.isWildcard] at hwild
  · intro m a hwild h
    obtain ⟨t, ht, h⟩ := (wildcardBoundsFrom_of_step (by simpa using hwild) a).mp h
    refine ⟨t, ht, ?_⟩
    cases t with
    | none =>
      obtain rfl : a = none := h
      simp
    | some t => exact h

theorem fits_of_planIs (h : r.Acyclic) (hr : r.Fits k) {n other : Node} {guard : Option Guard}
    (hn : n.Fits k) (hother : other.Fits k) {p : Plan} (hplan : PlanIs r n other guard p) :
    p.Fits k := by
  have hbounds : ∀ {n : Node} {w : WildcardBounds}, n.Fits k → BoundsAre r n (some w) →
      ∀ b ∈ w.bounds, b.Fits k := by
    rintro n w hn ⟨limit, hw⟩
    exact fits_of_wildcardBounds h.bounds hr hn hw
  cases planned_of_planIs hplan with
  | noArray | remembered | otherKind | theirWildcard | refused | admitted | otherLength => trivial
  | components _ _ hc hc' =>
    constructor
    · rintro m rfl
      exact fits_of_componentIs h.bounds hr hn hc
    · rintro m rfl
      exact fits_of_componentIs h.bounds hr hother hc'
  | wildcards _ _ hours htheirs _ => exact ⟨hbounds hn hours, hbounds hother htheirs⟩
  | ourWildcard _ _ hours _ => exact ⟨hbounds hn hours, by simpa using hother⟩
  | @arguments side e args otherArgs hmeets _ _ hours htheirs _ =>
    obtain ⟨view, hview, hotherArgs⟩ := htheirs
    have hours := fits_of_genericsAre h.bounds hr hn hours
    have htheirs : ∀ m, some m ∈ otherArgs → m.Fits k := by
      cases view with
      | none =>
        obtain rfl : [] = otherArgs := Option.some.inj (finds_const_iff.mp hotherArgs)
        simp
      | some view =>
        have hfits := fits_of_viewIs h hr hother hview
        exact fits_of_genericsAre h.bounds hr hfits hotherArgs
    rintro ⟨a, b⟩ hab
    obtain ⟨ha, hb⟩ := List.of_mem_zip hab
    exact ⟨fun m hm => hours m (hm ▸ ha), fun m hm => htheirs m (hm ▸ hb)⟩

/-! ## Comparisons along a branch -/

namespace Comparison

/-- Both sides of a comparison are within a bound. -/
def Fits (k : Nat) (c : Comparison) : Prop :=
  (∀ n ∈ c.ours, n.Fits k) ∧ ∀ n ∈ c.theirs, n.Fits k

/-- The expressions that are compared, unless a side is missing. -/
def exprs? (c : Comparison) : Option (TypeExpr × TypeExpr) :=
  match c.ours, c.theirs with
  | some n, some other => some (n.expr, other.expr)
  | _, _ => none

end Comparison

/-- What is opened keeps within the bound. -/
theorem Opens.fits (h : r.Acyclic) (hr : r.Fits k) {c d : Comparison} (hc : c.Fits k)
    (hopens : Opens r c d) : d.Fits k := by
  cases hopens with
  | components hplan =>
    exact fits_of_planIs h hr (hc.1 _ rfl) (hc.2 _ rfl) hplan
  | @bounds n other guard kind before after types types' bound type hplan hbefore htypes =>
    obtain ⟨hbounds, htypes⟩ := fits_of_planIs h hr (hc.1 _ rfl) (hc.2 _ rfl) hplan
    have hbound := hbounds bound (by simp)
    have htype := htypes type (by simp)
    cases kind with
    | upper =>
      exact ⟨fun _ hm => Option.some.inj hm ▸ hbound, fun _ hm => Option.some.inj hm ▸ htype⟩
    | lower =>
      exact ⟨fun _ hm => Option.some.inj hm ▸ htype, fun _ hm => Option.some.inj hm ▸ hbound⟩
  | @arguments n other guard reached before after arg otherArg hplan hbefore =>
    have hpairs := fits_of_planIs h hr (hc.1 _ rfl) (hc.2 _ rfl) hplan
    exact hpairs (arg, otherArg) (by simp)

/-- A comparison that opens others has two sides. -/
theorem Opens.exists_exprs {c d : Comparison} (h : Opens r c d) : ∃ p, c.exprs? = some p := by
  cases h <;> exact ⟨_, rfl⟩

theorem Comparison.Fits.exprs {c : Comparison} (h : c.Fits k) {p : TypeExpr × TypeExpr}
    (hp : c.exprs? = some p) : p.1.weight ≤ k ∧ p.2.weight ≤ k := by
  obtain ⟨n, other, guard⟩ := c
  cases n with
  | none => simp [exprs?] at hp
  | some n =>
    cases other with
    | none => simp [exprs?] at hp
    | some other =>
      obtain rfl := Option.some.inj hp
      exact ⟨(h.1 n rfl).expr, (h.2 other rfl).expr⟩

/-- Along an infinite branch two expressions are compared again and again. -/
theorem exists_recurrence (h : r.Acyclic) {branch : ℕ → Comparison}
    (hfits : (branch 0).Fits k) (hr : r.Fits k)
    (hopens : ∀ i, Opens r (branch i) (branch (i + 1))) :
    ∃ p, ∀ i, ∃ j ≥ i, (branch j).exprs? = some p := by
  have hall : ∀ i, (branch i).Fits k := by
    intro i
    induction i with
    | zero => exact hfits
    | succ i ih => exact (hopens i).fits h hr ih
  choose pair hpair using fun i => (hopens i).exists_exprs
  have hfinite : {p : TypeExpr × TypeExpr | p.1.weight ≤ k ∧ p.2.weight ≤ k}.Finite :=
    (TypeExpr.finite_weight_le k).prod (TypeExpr.finite_weight_le k)
  have : Finite {p : TypeExpr × TypeExpr | p.1.weight ≤ k ∧ p.2.weight ≤ k} := hfinite
  let position (i : ℕ) : {p : TypeExpr × TypeExpr | p.1.weight ≤ k ∧ p.2.weight ≤ k} :=
    ⟨pair i, (hall i).exprs (hpair i)⟩
  obtain ⟨p, hp⟩ := Finite.exists_infinite_fiber position
  refine ⟨p.1, fun i => ?_⟩
  obtain ⟨j, hj, hlt⟩ := (Set.infinite_coe_iff.mp hp).exists_gt i
  refine ⟨j, hlt.le, ?_⟩
  have heq : position j = p := hj
  rw [hpair j, ← heq]

/-- A branch of a check that compares two expressions again and again. -/
def Recurs (r : Registry) (c : Comparison) : Prop :=
  ∃ branch : ℕ → Comparison, branch 0 = c ∧ (∀ i, Opens r (branch i) (branch (i + 1))) ∧
    ∃ p, ∀ i, ∃ j ≥ i, (branch j).exprs? = some p

theorem not_ends_iff_recurs (h : r.Acyclic) (n other : Node) (guard : Option Guard) :
    ¬(Comparison.mk (some n) (some other) guard).Ends r ↔
      Recurs r ⟨some n, some other, guard⟩ := by
  rw [ends_iff_acc h, not_acc_iff_exists_descending_chain]
  constructor
  · rintro ⟨branch, hstart, hopens⟩
    obtain ⟨k, hr, hn, hother⟩ := exists_common_fits r n other
    have hfits : (branch 0).Fits k := by
      rw [hstart]
      exact ⟨fun _ hm => Option.some.inj hm ▸ hn, fun _ hm => Option.some.inj hm ▸ hother⟩
    exact ⟨branch, hstart, hopens, exists_recurrence h hfits hr hopens⟩
  · rintro ⟨branch, hstart, hopens, -⟩
    exact ⟨branch, hstart, hopens⟩

theorem isAssignableFrom_isSome_iff (limit : Nat) (n other : Node) :
    (isAssignableFrom limit r r (some n) (some other)).isSome ↔
      ((Comparison.mk (some n) (some other) none).check r limit).isSome := by
  rw [isAssignableFrom, Comparison.check]
  cases assignableFrom limit r r (some n) (some other) none <;> rfl

/-- The bootstrap registry with a class `X` whose variable `T` is bounded by `Comparable<T[]>`. -/
def arrayBound : Registry :=
  let bound := .parameterized Bootstrap.wellKnown.comparable [.genericArray (.typeVar ⟨18⟩)] none
  (Registry.bootstrap.addTypeParam ⟨"T", [bound]⟩).1.push { name := "X", typeParams := [⟨18⟩] }

theorem arrayBound_acyclic : arrayBound.Acyclic :=
  Registry.acyclic_of_ordered (by decide +kernel) (by decide +kernel)

/-- The variable of `X` in the open. -/
def boundedVar : Node := ofExpr (.typeVar ⟨18⟩)

/-- The variable of enums, whose bound `Enum<E>` mentions it again. -/
def enumVar : Node := ofExpr (.typeVar ⟨1⟩)

/-- The array of the variable of `X`. -/
def boundedArray : Node := ofExpr (.genericArray (.typeVar ⟨18⟩))

/-- The check of two nodes answers exactly when no branch of it recurs. -/
theorem isAssignableFrom_answers_iff (r : Registry) (h : r.Acyclic) (n other : Node) :
    (∃ limit, (isAssignableFrom limit r r (some n) (some other)).isSome) ↔
      ¬Recurs r ⟨some n, some other, none⟩ := by
  simp only [isAssignableFrom_isSome_iff]
  rw [← not_ends_iff_recurs h, not_not]
  rfl

/-- The check of the variable of `X` is read off its branches, and the one of the variable of enums,
which is bounded in terms of itself, answers: no branch of it recurs. -/
theorem arrayBound_answers_iff : arrayBound.Acyclic ∧
    ((∃ limit, (isAssignableFrom limit arrayBound arrayBound (some boundedVar)
        (some boundedVar)).isSome) ↔
      ¬Recurs arrayBound ⟨some boundedVar, some boundedVar, none⟩) ∧
    arrayBound.declaredBound? ⟨1⟩ =
      some (.parameterized Bootstrap.wellKnown.enumClass [.typeVar ⟨1⟩] none) ∧
    (∃ limit, (isAssignableFrom limit arrayBound arrayBound (some enumVar)
        (some enumVar)).isSome) ∧
      ¬Recurs arrayBound ⟨some enumVar, some enumVar, none⟩ := by
  have hanswers : ∃ limit, (isAssignableFrom limit arrayBound arrayBound (some enumVar)
      (some enumVar)).isSome := ⟨8, by decide +kernel⟩
  exact ⟨arrayBound_acyclic, isAssignableFrom_answers_iff arrayBound arrayBound_acyclic boundedVar
    boundedVar, by decide, hanswers,
    (isAssignableFrom_answers_iff arrayBound arrayBound_acyclic enumVar enumVar).mp hanswers⟩

theorem arrayBound_opens_array : Opens arrayBound ⟨some boundedVar, some boundedVar, none⟩
    ⟨some boundedArray, some boundedArray, some [(boundedVar.expr, boundedVar.expr)]⟩ :=
  @Opens.arguments arrayBound boundedVar boundedVar none _ [] [] _ _
    (.intro 6 (by decide +kernel)) (.intro 0 rfl)

theorem arrayBound_opens_component (guard : Option Guard) :
    Opens arrayBound ⟨some boundedArray, some boundedArray, guard⟩
      ⟨some boundedVar, some boundedVar, none⟩ :=
  .components (.intro 2 rfl)

/-- The check never answers for a variable with that bound, although there are no circles. -/
theorem arrayBound_cutOff : arrayBound.Acyclic ∧
    ∀ limit, isAssignableFrom limit arrayBound arrayBound (some boundedVar) (some boundedVar) =
      none := by
  refine ⟨arrayBound_acyclic, fun limit => ?_⟩
  let branch (i : ℕ) : Comparison :=
    if i % 2 = 0 then ⟨some boundedVar, some boundedVar, none⟩
    else ⟨some boundedArray, some boundedArray, some [(boundedVar.expr, boundedVar.expr)]⟩
  have hopens : ∀ i, Opens arrayBound (branch i) (branch (i + 1)) := by
    intro i
    rcases Nat.mod_two_eq_zero_or_one i with hi | hi
    · have hnext : (i + 1) % 2 = 1 := by omega
      simpa only [branch, hi, hnext, if_true, one_ne_zero, if_false] using arrayBound_opens_array
    · have hnext : (i + 1) % 2 = 0 := by omega
      simpa only [branch, hi, hnext, if_true, one_ne_zero, if_false] using
        arrayBound_opens_component _
  have hinfinite : ¬Acc (fun d c => Opens arrayBound c d) (branch 0) :=
    not_acc_iff_exists_descending_chain.mpr ⟨branch, rfl, hopens⟩
  have hends : ¬(branch 0).Ends arrayBound := fun h =>
    hinfinite ((ends_iff_acc arrayBound_acyclic _).mp h)
  rw [← Option.not_isSome_iff_eq_none, isAssignableFrom_isSome_iff]
  exact fun h => hends ⟨limit, h⟩

end Node

end TypeConversion
