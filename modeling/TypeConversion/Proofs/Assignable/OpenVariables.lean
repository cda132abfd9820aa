import TypeConversion.Proofs.Assignable.Unguarded
import TypeConversion.Proofs.Assignable.Views

/-!
# Open type variables

A class without arguments has its type parameters for arguments.  Where these open variables are
compared with the arguments that another class passes up, each of them stands for its declared
bound: the argument has to be below the bound, and the arguments of the bound, in which the variable
may occur again, are compared with those that the argument has as the class of the bound.

`Matches` says of a type expression with open variables and a node that the one contains the other,
given for each variable which nodes it may stand for.  Bounds may mention the variable they bound,
so whether an argument is within its bounds is a matter of coinduction: there is some relation
between variables and nodes that goes on from each pair along the declared bound of the variable.

**Results**

* `StandsAs.exists_answers`: what stands for a class holds of a node if its arguments match;
* `exists_answers_of_matches`: a check of a type expression with open variables that ends holds if
  the node matches.
-/

namespace TypeConversion

namespace TypeExpr

/-- The type arguments of an expression, which are the type parameters of a raw class. -/
def argumentsIn (r : Registry) : TypeExpr → List TypeExpr
  | plain e => (e.asClass?.elim [] r.typeParameters).map typeVar
  | parameterized _ args _ => args
  | genericArray _ | wildcard .. | typeVar _ => []

end TypeExpr

namespace Node

open Walk Registry

/-- A node that binds no variable. -/
def BindsNothing (r : Registry) (o : Node) : Prop := ∀ v, VariableIs r (some o) v none

/-- The first class on the way from a variable along the declared first bounds. -/
inductive BoundedBy (r : Registry) : TypeVarId → TypeExpr → Prop
  | top {v : TypeVarId} (h : r.declaredBound? v = none) :
      BoundedBy r v (.ofClass r.wellKnown.object)
  | ofClass {v : TypeVarId} {t : TypeExpr} {c : ClassId} (h : r.declaredBound? v = some t)
      (ht : t.head? = some (.ofClass c)) : BoundedBy r v t
  | next {v w : TypeVarId} {t : TypeExpr} (h : r.declaredBound? v = some (.typeVar w))
      (hw : BoundedBy r w t) : BoundedBy r v t

/-- What a wildcard of a kind is compared with: a wildcard of the same kind by its bounds, all else
as it is. -/
inductive Offers (r : Registry) (kind : WildcardKind) (m : Node) : List Node → Prop
  | self (h : BoundsAre r m none) : Offers r kind m [m]
  | bounds {w : WildcardBounds} (h : BoundsAre r m (some w)) (hkind : w.kind = kind) :
      Offers r kind m w.bounds

/-- An expression that is no array where nothing is bound. -/
def OpensNoArray (r : Registry) (t : TypeExpr) : Prop :=
  ∀ o, BindsNothing r o → ArrayIs r (written t (some o)) false

/-- The upper bounds of a wildcard, which may be the top class alone. -/
def upperOrTop (r : Registry) : List TypeExpr → List TypeExpr
  | [] => [.ofClass r.wellKnown.object]
  | b :: upper => b :: upper

/--
A node matches a type expression whose variables stand for certain nodes: it is below it at the top,
and contained in it inside type arguments.  A class takes the classes below it, or just itself, with
arguments that match; an array takes arrays below it; a wildcard takes what is below its upper
bounds, or what its lower bounds are accepted by.
-/
inductive Matches (r : Registry) (A : TypeVarId → Node → Prop) : Bool → TypeExpr → Node → Prop
  | typeVar {inside : Bool} {v : TypeVarId} {m : Node} (h : A v m) :
      Matches r A inside (.typeVar v) m
  | ofClass {inside : Bool} {t : TypeExpr} {c : ClassId} {m : Node} {e : Erasure}
      {ms : List (Option Node)} (ht : t.head? = some (.ofClass c)) (hm : BoundsAre r m none)
      (he : ErasureIs r m e) (hadmits : OurSide.admits r ⟨.ofClass c, inside, true⟩ e = true)
      (hms : ViewArgumentsAre r m (.ofClass c) ms)
      (hlength : (t.argumentsIn r).length = ms.length) (hmissing : none ∉ ms)
      (hargs : ∀ a k, (a, some k) ∈ (t.argumentsIn r).zip ms → Matches r A true a k) :
      Matches r A inside t m
  | array {inside : Bool} {t component : TypeExpr} {m k : Node}
      (ht : t.component? = some component) (hm : ArrayIs r m true)
      (hk : ComponentIs r m (some k)) (h : Matches r A false component k) : Matches r A inside t m
  | upper {inside : Bool} {upper : List TypeExpr} {m : Node} {types : List Node}
      (harray : OpensNoArray r (.wildcard upper [])) (htypes : Offers r .upper m types)
      (h : ∀ b ∈ upperOrTop r upper, ∀ k ∈ types, Matches r A false b k) :
      Matches r A inside (.wildcard upper []) m
  | lower {inside : Bool} {upper lower : List TypeExpr} {m : Node} {types : List Node}
      (hlower : lower ≠ []) (harray : OpensNoArray r (.wildcard upper lower))
      (htypes : Offers r .lower m types)
      (h : ∀ b ∈ lower, ∀ k ∈ types, ∀ o, BindsNothing r o →
        Holds r false (some k) (some (written b (some o)))) :
      Matches r A inside (.wildcard upper lower) m

/--
A relation between variables and nodes that goes on along the declared bounds: each node matches the
bound of its variable, and its context does not bind the variable itself.
-/
def RespectsBounds (r : Registry) (A : TypeVarId → Node → Prop) : Prop :=
  ∀ v m, A v m → Binds r m.context v none ∧ ∃ t, BoundedBy r v t ∧ Matches r A false t m

/-- Type arguments for the parameters of a class, all of them within the declared bounds. -/
def WithinBounds (r : Registry) (c : ClassId) (ms : List (Option Node)) : Prop :=
  ∃ A ks, RespectsBounds r A ∧ ms = ks.map some ∧ List.Forall₂ A (r.typeParameters c) ks

variable {r : Registry}

/-! ## Expressions read where nothing is bound -/

theorem bindsNothing_ofClass (c : ClassId) : BindsNothing r (ofClass c) := fun v =>
  (variableIs_plain_iff ..).mpr ((variableIs_none_iff v none).mpr rfl)

theorem BindsNothing.plain {o : Node} (h : BindsNothing r o) (e : Erasure) :
    BindsNothing r (written (.plain e) (some o)) := fun v =>
  (variableIs_plain_iff ..).mpr (h v)

theorem BindsNothing.stepsTo {o : Node} (h : BindsNothing r o) (v : TypeVarId) :
    StepsTo r (written (.typeVar v) (some o))
      ((r.declaredBound? v).map fun t => written t (some o)) :=
  (stepsTo_of_typeVar (expr_written ..) _).mpr ⟨none, (binds_iff ..).mpr (h v), rfl⟩

theorem BoundedBy.exists_head? {v : TypeVarId} {t : TypeExpr} (h : BoundedBy r v t) :
    ∃ c, t.head? = some (.ofClass c) := by
  induction h with
  | top _ => exact ⟨_, rfl⟩
  | ofClass _ ht => exact ⟨_, ht⟩
  | next _ _ ih => exact ih

/-- A node that stands for a class with the arguments of a type expression. -/
structure StandsAs (r : Registry) (n : Node) (t : TypeExpr) (c : ClassId) : Prop where
  noArray : ArrayIs r n false
  noBounds : ∀ origin, Finds (fun limit => wildcardBoundsFrom r origin limit n) none
  erasure : ErasureIs r n (.ofClass c)
  generics : ∃ o, BindsNothing r o ∧
    GenericsAre r n ((t.argumentsIn r).map fun a => some (written a (some o)))

section

variable {o : Node} {t : TypeExpr} {c : ClassId}

theorem standsAs_of_head? (ho : BindsNothing r o) (ht : t.head? = some (.ofClass c)) :
    StandsAs r (written t (some o)) t c := by
  have hn : (written t (some o)).expr.head? = some (.ofClass c) := by rw [expr_written, ht]
  refine ⟨arrayIs_of_head? hn, wildcardBoundsFrom_of_head? hn,
    erasureIs_of_resolvesTo (resolvesTo_of_head? hn), ?_⟩
  cases t with
  | plain e =>
    refine ⟨_, ho.plain e, (genericsAre_plain_iff ..).mpr ?_⟩
    simp [TypeExpr.argumentsIn]
  | parameterized raw args owner => exact ⟨o, ho, (genericsAre_parameterized_iff ..).mpr rfl⟩
  | genericArray _ | wildcard _ _ | typeVar _ => simp [TypeExpr.head?] at ht

/-- A variable stands for what a step leads to. -/
theorem StandsAs.of_step {v : TypeVarId} {context : Option Node} {m : Node}
    (hstep : StepsTo r (written (.typeVar v) context) (some m)) (h : StandsAs r m t c) :
    StandsAs r (written (.typeVar v) context) t c where
  noArray := (arrayIs_of_step rfl _).mpr ⟨_, hstep, h.noArray⟩
  noBounds origin := (wildcardBoundsFrom_of_step rfl _).mpr ⟨_, hstep, h.noBounds origin⟩
  erasure := by
    obtain ⟨found, hfound, he⟩ := erasureIs_iff.mp h.erasure
    exact erasureIs_iff.mpr ⟨found, (resolvesTo_of_step rfl _).mpr ⟨_, hstep, hfound⟩, he⟩
  generics := by
    obtain ⟨o, ho, hargs⟩ := h.generics
    exact ⟨o, ho, (genericsAre_of_step rfl _).mpr ⟨_, hstep, hargs⟩⟩

/-- Where nothing is bound, a variable stands for the first class along its bounds. -/
theorem standsAs_of_boundedBy (hobject : r.typeParameters r.wellKnown.object = [])
    (ho : BindsNothing r o) {v : TypeVarId} (h : BoundedBy r v t)
    (ht : t.head? = some (.ofClass c)) : StandsAs r (written (.typeVar v) (some o)) t c := by
  induction h with
  | @top v h =>
    have hstep := ho.stepsTo v
    rw [h] at hstep
    obtain rfl : r.wellKnown.object = c := by
      simpa [TypeExpr.ofClass, TypeExpr.head?, Erasure.ofClass] using ht
    have harguments : (TypeExpr.ofClass r.wellKnown.object).argumentsIn r = [] := by
      change (r.typeParameters r.wellKnown.object).map TypeExpr.typeVar = []
      rw [hobject, List.map_nil]
    refine ⟨(arrayIs_of_step rfl _).mpr ⟨none, hstep, rfl⟩,
      fun origin => (wildcardBoundsFrom_of_step rfl _).mpr ⟨none, hstep, rfl⟩,
      erasureIs_of_resolvesTo ((resolvesTo_of_step rfl none).mpr ⟨none, hstep, rfl⟩), o, ho, ?_⟩
    rw [harguments]
    exact (genericsAre_of_step rfl _).mpr ⟨none, hstep, rfl⟩
  | @ofClass v t _ h _ =>
    have hstep := ho.stepsTo v
    rw [h] at hstep
    exact (standsAs_of_head? ho ht).of_step hstep
  | @next v w t h _ ih =>
    have hstep := ho.stepsTo v
    rw [h] at hstep
    exact (ih ht).of_step hstep

/-- An open variable that their context leaves open too is compared by its bound. -/
theorem sideIs_of_open {v : TypeVarId} {m : Node} {e : Erasure} (ho : BindsNothing r o)
    (hm : Binds r m.context v none) (he : ErasureIs r (written (.typeVar v) (some o)) e)
    (inside : Bool) : SideIs r (written (.typeVar v) (some o)) m inside ⟨e, false, true⟩ := by
  have hours : Binds r (some o) v none := (binds_iff ..).mpr (ho v)
  have hours := Finds.eventually (resolveInContext_steady r _ v) hours
  have hm := Finds.eventually (resolveInContext_steady r _ v) hm
  have he := Finds.eventually (resolveOr_steady _ r.object) he
  obtain ⟨limit, hours, hm, he⟩ := (hours.and (hm.and he)).exists
  exact .intro limit (by simp [ourSide, hours, resolveOption, hm, he])

/-! ## What is compared by classes -/

/--
What stands for a class is found to hold of a node that it admits, if the type arguments do that
come to be compared.
-/
theorem StandsAs.exists_answers {n m : Node} {guard : Option Guard} {exact : Bool} {e : Erasure}
    {ms : List (Option Node)} (hn : StandsAs r n t c)
    (hside : SideIs r n m guard.isSome ⟨.ofClass c, exact, true⟩) (hm : BoundsAre r m none)
    (he : ErasureIs r m e) (hadmits : OurSide.admits r ⟨.ofClass c, exact, true⟩ e = true)
    (hms : ViewArgumentsAre r m (.ofClass c) ms)
    (hlength : (t.argumentsIn r).length = ms.length) (hmissing : none ∉ ms) {limit : Nat}
    (hends : ((Comparison.mk (some n) (some m) guard).check r limit).isSome)
    (hargs : ∀ a k o, (a, some k) ∈ (t.argumentsIn r).zip ms → BindsNothing r o →
      ∀ reached l, l < limit →
        ((Comparison.mk (some (written a (some o))) (some k) (some reached)).check r l).isSome →
        ∃ after, (Comparison.mk (some (written a (some o))) (some k) (some reached)).Answers r
          true after) :
    ∃ after, (Comparison.mk (some n) (some m) guard).Answers r true after := by
  by_cases hskip : Remembers guard n m
  · exact (Planned.remembered hn.noArray hskip).decides_decided_iff.mpr rfl
  obtain ⟨o, ho, hgenerics⟩ := hn.generics
  have hmeets : Meets r n m guard ⟨.ofClass c, exact, true⟩ e :=
    ⟨hn.noArray, hskip, hn.noBounds n, hm, hside, he⟩
  have hplan := (Planned.arguments hmeets hadmits rfl hgenerics hms (by simpa using hlength)).planIs
  rw [List.zip_map_left] at hplan
  have hpasses : ∃ after, Passes r (((t.argumentsIn r).zip ms).map
      (Prod.map (fun a => some (written a (some o))) id))
      (some ((n.expr, m.expr) :: guard.getD [])) after := by
    refine exists_passes_of_reached fun before arg otherArg rest reached heq hbefore => ?_
    have hmem : (arg, otherArg) ∈ ((t.argumentsIn r).zip ms).map
        (Prod.map (fun a => some (written a (some o))) id) := by simp [heq]
    obtain ⟨⟨a, k⟩, hzip, hpair⟩ := List.mem_map.mp hmem
    obtain ⟨rfl, rfl⟩ := Prod.mk.inj hpair
    rw [heq] at hplan
    obtain ⟨l, hl, hend⟩ := exists_check_of_opens hends (.arguments hplan hbefore)
    obtain ⟨reached, rfl⟩ := hbefore.exists_guard
    cases k with
    | none => exact absurd (List.of_mem_zip hzip).2 hmissing
    | some k => exact hargs a k o hzip ho reached l hl hend
  obtain ⟨after, hpasses⟩ := hpasses
  exact ⟨after, (Comparison.answers_iff ..).mpr ⟨_, hplan, hpasses⟩⟩

end

/-! ## What matches is found to hold -/

/-- Nothing but a class below it matches a class. -/
theorem Matches.of_head? {A : TypeVarId → Node → Prop} {inside : Bool} {t : TypeExpr}
    {c : ClassId} {m : Node} (h : Matches r A inside t m) (ht : t.head? = some (.ofClass c)) :
    BoundsAre r m none ∧ (∃ e, ErasureIs r m e ∧
      OurSide.admits r ⟨.ofClass c, inside, true⟩ e = true) ∧
    ∃ ms, ViewArgumentsAre r m (.ofClass c) ms ∧ (t.argumentsIn r).length = ms.length ∧
      none ∉ ms ∧ ∀ a k, (a, some k) ∈ (t.argumentsIn r).zip ms → Matches r A true a k := by
  cases h with
  | @ofClass _ _ c' _ e ms ht' hm he hadmits hms hlength hmissing hargs =>
    obtain rfl : c' = c := by simpa [Erasure.ofClass] using ht'.symm.trans ht
    exact ⟨hm, ⟨e, he, hadmits⟩, ms, hms, hlength, hmissing, hargs⟩
  | array hcomponent _ _ _ =>
    cases t with
    | plain e =>
      obtain rfl : e = .ofClass c := by simpa [TypeExpr.head?] using ht
      simp [TypeExpr.component?, Erasure.component?, Erasure.ofClass, Erasure.isArray] at hcomponent
    | parameterized _ _ _ => simp [TypeExpr.component?] at hcomponent
    | genericArray _ | wildcard _ _ | typeVar _ => simp [TypeExpr.head?] at ht
  | typeVar _ | upper _ _ _ | lower _ _ _ _ => simp [TypeExpr.head?] at ht

theorem boundsAre_wildcard (upper lower : List TypeExpr) (context : Option Node) :
    BoundsAre r (written (.wildcard upper lower) context)
      (some (boundsOf r (written (.wildcard upper lower) context) upper lower)) :=
  (wildcardBoundsFrom_of_wildcard (expr_written ..) _).mpr rfl

theorem boundsOf_upper (origin : Node) (upper : List TypeExpr) :
    boundsOf r origin upper [] = ⟨.upper, (upperOrTop r upper).map origin.sibling⟩ := by
  cases upper <;> rfl

theorem boundsOf_lower (origin : Node) (upper : List TypeExpr) {lower : List TypeExpr}
    (h : lower ≠ []) : boundsOf r origin upper lower = ⟨.lower, lower.map origin.sibling⟩ := by
  cases lower with
  | nil => exact absurd rfl h
  | cons b lower => cases upper <;> rfl

/-- A property holds of a whole list if it holds of each member once it does of those before. -/
theorem forall_mem_of_before {α : Type} {p : α → Prop} {xs : List α}
    (h : ∀ before x after, xs = before ++ x :: after → (∀ y ∈ before, p y) → p x) :
    ∀ x ∈ xs, p x := by
  induction xs with
  | nil => simp
  | cons x xs ih =>
    have hx : p x := h [] x xs rfl (by simp)
    have hrest : ∀ y ∈ xs, p y := ih fun before y after heq hbefore =>
      h (x :: before) y after (by rw [heq]; rfl) (List.forall_mem_cons.mpr ⟨hx, hbefore⟩)
    exact List.forall_mem_cons.mpr ⟨hx, hrest⟩

/-- A wildcard is found to hold of a node if its bounds accept what the node offers. -/
theorem exists_answers_of_wildcard {n m : Node} {guard : Option Guard} {w : WildcardBounds}
    {types : List Node} (hn : ArrayIs r n false) (hw : BoundsAre r n (some w))
    (htypes : Offers r w.kind m types) {limit : Nat}
    (hends : ((Comparison.mk (some n) (some m) guard).check r limit).isSome)
    (hbounds : ∀ b ∈ w.bounds, ∀ k ∈ types, ∀ l < limit,
      ((boundComparison w.kind b k).check r l).isSome → Accepts r w.kind b k) :
    ∃ after, (Comparison.mk (some n) (some m) guard).Answers r true after := by
  by_cases hskip : Remembers guard n m
  · exact (Planned.remembered hn hskip).decides_decided_iff.mpr rfl
  have hplan : Planned r n m guard (.bounds w.kind w.bounds types) := by
    cases htypes with
    | self hm => exact .ourWildcard hn hskip hw hm
    | bounds hm hkind => exact .wildcards hn hskip hw hm hkind.symm
  refine hplan.decides_bounds_iff.mpr ((finds_acceptsAll_true_iff ..).mpr ?_)
  have hplan := hplan.planIs
  refine forall_mem_of_before fun before b after hb hbefore => ?_
  refine forall_mem_of_before fun types₁ k types₂ hk htypes₁ => ?_
  have hopens : Opens r ⟨some n, some m, guard⟩ (boundComparison w.kind b k) := by
    rw [hb, hk] at hplan
    exact .bounds hplan (hk ▸ hbefore) htypes₁
  obtain ⟨l, hl, hend⟩ := exists_check_of_opens hends hopens
  exact hbounds b (by simp [hb]) k (by simp [hk]) l hl hend

/-- What is written as an array is one, of its component in the same context. -/
theorem array_of_component? {t component : TypeExpr} (context : Option Node)
    (h : t.component? = some component) :
    ArrayIs r (written t context) true ∧
      ComponentIs r (written t context) (some (written component context)) := by
  cases t with
  | plain e =>
    obtain ⟨a, ha, rfl⟩ := Option.map_eq_some_iff.mp h
    have harray : e.isArray = true := by
      by_contra hnot
      simp [Erasure.component?, hnot] at ha
    exact ⟨(arrayIs_of_plain (expr_written ..) _).mpr harray.symm,
      (componentIs_plain_iff ..).mpr (by rw [ha]; rfl)⟩
  | genericArray t =>
    obtain rfl : t = component := by simpa [TypeExpr.component?] using h
    exact ⟨(arrayIs_of_genericArray (expr_written ..) _).mpr rfl,
      (componentIs_genericArray_iff ..).mpr rfl⟩
  | parameterized _ _ _ | wildcard _ _ | typeVar _ => simp [TypeExpr.component?] at h

/-- A node that matches a type expression is found to hold by every check that ends. -/
theorem exists_answers_of_matches (hobject : r.typeParameters r.wellKnown.object = [])
    {A : TypeVarId → Node → Prop} (hA : RespectsBounds r A) {limit : Nat} {o m : Node}
    {t : TypeExpr} {guard : Option Guard} (ho : BindsNothing r o)
    (h : Matches r A guard.isSome t m)
    (hends : ((Comparison.mk (some (written t (some o))) (some m) guard).check r limit).isSome) :
    ∃ after, (Comparison.mk (some (written t (some o))) (some m) guard).Answers r true after := by
  -- all that is compared further ends under a smaller limit
  induction limit using Nat.strong_induction_on generalizing o m t guard with
  | _ limit ih =>
  cases h with
  | typeVar hv =>
    obtain ⟨hunbound, t, hbound, hmatches⟩ := hA _ _ hv
    obtain ⟨c, hc⟩ := hbound.exists_head?
    obtain ⟨hm, ⟨e, he, hadmits⟩, ms, hms, hlength, hmissing, hargs⟩ := hmatches.of_head? hc
    have hn := standsAs_of_boundedBy hobject ho hbound hc
    exact hn.exists_answers (sideIs_of_open ho hunbound hn.erasure _) hm he hadmits hms hlength
      hmissing hends fun a k o' hmem ho' reached l hl hend => ih l hl ho' (hargs a k hmem) hend
  | ofClass ht hm he hadmits hms hlength hmissing hargs =>
    have hn := standsAs_of_head? ho ht
    have hside := sideIs_of_head? (r := r) (n := written t (some o)) (by rw [expr_written, ht]) m
      guard.isSome
    exact hn.exists_answers hside hm he hadmits hms hlength hmissing hends
      fun a k o' hmem ho' reached l hl hend => ih l hl ho' (hargs a k hmem) hend
  | @array _ t component _ k ht hm hk hmatches =>
    obtain ⟨harray, hcomponent⟩ := array_of_component? (r := r) (some o) ht
    have hplan : Planned r (written t (some o)) m guard
        (.components (some (written component (some o))) (some k)) :=
      .components harray hm hcomponent hk
    obtain ⟨l, hl, hend⟩ := exists_check_of_opens hends (.components hplan.planIs)
    exact hplan.decides_components_iff.mpr (ih l hl ho hmatches hend)
  | @upper _ upper _ types harray htypes hbounds =>
    have hw := boundsAre_wildcard (r := r) upper [] (some o)
    rw [boundsOf_upper] at hw
    refine exists_answers_of_wildcard (harray o ho) hw htypes hends fun n hn k hk l hl hend => ?_
    obtain ⟨b, hb, rfl⟩ := List.mem_map.mp hn
    exact ih l hl ho (hbounds b hb k hk) hend
  | @lower _ upper lower _ types hlower harray htypes hholds =>
    have hw := boundsAre_wildcard (r := r) upper lower (some o)
    rw [boundsOf_lower _ _ hlower] at hw
    refine exists_answers_of_wildcard (harray o ho) hw htypes hends fun n hn k hk _ _ _ => ?_
    obtain ⟨b, hb, rfl⟩ := List.mem_map.mp hn
    exact (hholds b hb k hk o ho).answers rfl

end Node

end TypeConversion
