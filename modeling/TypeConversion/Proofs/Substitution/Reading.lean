import TypeConversion.Proofs.Assignable.Written
import TypeConversion.Proofs.Substitution.WellFormed

/-!
# Nodes read as type expressions

A node whose variables are all bound in its context can be read as a type expression without any:
its expression, with every variable replaced by what it is bound to, which is read in turn.  Nodes
that read alike are alike in everything that walks find of them, although their contexts may differ:
their parts, bounds, arguments and supertypes read alike again.

A variable hides the node that it is bound to.  The heads of a reading are its nodes that are no
variables, and what is found of them is carried back along the steps that lead there
(`ReadsAs.head_induction`).
-/

namespace TypeConversion

namespace Node

open Walk TypeExpr

variable {r : Registry}

/-- A node reads as its expression with all variables replaced by what their bounds read as. -/
inductive ReadsAs (r : Registry) : Node → TypeExpr → Prop
  | intro {e : TypeExpr} {c : Option Node} {vars : List TypeVarId} (he : e.WellFormed r vars)
      (bound : TypeVarId → Node) (σ : TypeVarId → TypeExpr)
      (hbound : ∀ v ∈ vars, VariableIs r c v (some (bound v)))
      (hreads : ∀ v ∈ vars, ReadsAs r (bound v) (σ v)) :
      ReadsAs r (written e c) (e.instantiate fun v => some (σ v))

/-- An expression without variables reads as itself in every context. -/
theorem readsAs_written {e : TypeExpr} (he : e.WellFormed r []) (c : Option Node) :
    ReadsAs r (written e c) e := by
  have h : ReadsAs r (written e c) (e.instantiate fun _ => some e) :=
    .intro he (fun _ => default) (fun _ => e) (by simp) (by simp)
  rwa [he.instantiate_eq_self] at h

/-- What a node reads as has no variables. -/
theorem ReadsAs.wellFormed {n : Node} {t : TypeExpr} (h : ReadsAs r n t) : t.WellFormed r [] := by
  induction h with
  | intro he bound σ hbound hreads ih => exact he.instantiate ih

/-- The expression of a node that is no variable, next to what the node reads as. -/
inductive Heads (r : Registry) (c : Option Node) : TypeExpr → TypeExpr → Prop
  | plain {e : Erasure} (he : r.typeParameters e.element = []) : Heads r c (.plain e) (.plain e)
  | parameterized {raw : ClassId} {args args' : List TypeExpr} {owner owner' : Option TypeExpr}
      (hlength : args.length = (r.typeParameters raw).length)
      (hargs : List.Forall₂ (fun a u => ReadsAs r (written a c) u) args args') :
      Heads r c (.parameterized raw args owner) (.parameterized raw args' owner')
  | genericArray {component component' : TypeExpr}
      (h : ReadsAs r (written component c) component') :
      Heads r c (.genericArray component) (.genericArray component')
  | wildcard {upper lower : List TypeExpr} (hupper : AllWellFormed r [] upper)
      (hlower : AllWellFormed r [] lower) :
      Heads r c (.wildcard upper lower) (.wildcard upper lower)

/-- What a node that reads as an expression is, if no variable hides it. -/
theorem heads_of_wellFormed {e : TypeExpr} {c : Option Node} {vars : List TypeVarId}
    (he : e.WellFormed r vars) {bound : TypeVarId → Node} {σ : TypeVarId → TypeExpr}
    (hbound : ∀ v ∈ vars, VariableIs r c v (some (bound v)))
    (hreads : ∀ v ∈ vars, ReadsAs r (bound v) (σ v)) (hvar : ∀ v, e ≠ .typeVar v) :
    Heads r c e (e.instantiate fun v => some (σ v)) := by
  cases e with
  | plain a => exact .plain he
  | parameterized raw args owner =>
    refine .parameterized he.1 ?_
    rw [instantiateAll_eq_map, List.forall₂_map_right_iff, List.forall₂_same]
    intro a ha
    exact .intro ((allWellFormed_iff args).mp he.2.1 a ha) bound σ hbound hreads
  | genericArray component =>
    have hcomponent : component.WellFormed r vars := he
    exact .genericArray (.intro hcomponent bound σ hbound hreads)
  | wildcard upper lower =>
    rw [TypeExpr.instantiate, instantiateAll_eq_self he.1, instantiateAll_eq_self he.2]
    exact .wildcard he.1 he.2
  | typeVar v => exact (hvar v rfl).elim

/--
What holds of the heads of a reading, and of every variable that leads to a node of which it holds,
holds of all nodes with that reading.
-/
theorem ReadsAs.head_induction {P : Node → Prop} {t : TypeExpr}
    (hhead : ∀ e c, Heads r c e t → P (written e c))
    (hstep : ∀ v c b, VariableIs r c v (some b) → StepsTo r (written (.typeVar v) c) (some b) →
      P b → P (written (.typeVar v) c))
    {n : Node} (h : ReadsAs r n t) : P n := by
  induction h with
  | @intro e c vars he bound σ hbound hreads ih =>
    cases e with
    | typeVar v =>
      have hv : v ∈ vars := he
      refine hstep v c (bound v) (hbound v hv) ?_ (ih v hv hhead)
      rw [stepsTo_of_typeVar (expr_written ..)]
      exact ⟨some (bound v), (binds_iff ..).mpr (hbound v hv), rfl⟩
    | plain _ | parameterized _ _ _ | genericArray _ | wildcard _ _ =>
      exact hhead _ c (heads_of_wellFormed he hbound hreads (by simp))

/-! ## What is found of a node is settled by its reading -/

/-- The first bound of a wildcard is read in any context as it is, and smaller. -/
theorem readsAs_wildcardBound {upper lower : List TypeExpr} (hupper : AllWellFormed r [] upper)
    (hlower : AllWellFormed r [] lower) {b : TypeExpr}
    (hb : r.wildcardBound? upper lower = some b) :
    b.weight < (wildcard upper lower).weight ∧ ∀ c, ReadsAs r (written b c) b := by
  have hmem : b.weight ≤ weightAll upper + weightAll lower ∧ b.WellFormed r [] := by
    rcases Registry.wildcardBound?_mem hb with hmem | hmem
    · exact ⟨(weight_le_weightAll hmem).trans (Nat.le_add_right ..),
        (allWellFormed_iff _).mp hupper b hmem⟩
    · exact ⟨(weight_le_weightAll hmem).trans (Nat.le_add_left ..),
        (allWellFormed_iff _).mp hlower b hmem⟩
  exact ⟨by rw [weight]; omega, readsAs_written hmem.2⟩

/--
What is found of nodes by taking steps until there is a class or an array is the same of all nodes
that read alike, if it is the same of classes and arrays that do.  The induction is on the reading,
for the bounds of wildcards and the components of arrays, and at each reading on its nodes.
-/
theorem exists_of_reads {β : Type} (found : Node → β → Prop) (stop : β)
    (hclass : ∀ t : TypeExpr, t.isWildcard = false →
      (∀ u : TypeExpr, u.weight < t.weight → ∃ b, ∀ n, ReadsAs r n u → found n b) →
      ∃ b, ∀ e c, Heads r c e t → found (written e c) b)
    (hstep : ∀ e c m b, e.isClass = false → e.isFinal = false →
      StepsTo r (written e c) (some m) → found m b → found (written e c) b)
    (hstop : ∀ upper lower c, StepsTo r (written (.wildcard upper lower) c) none →
      found (written (.wildcard upper lower) c) stop)
    (t : TypeExpr) : ∃ b, ∀ n, ReadsAs r n t → found n b := by
  induction hw : t.weight using Nat.strong_induction_on generalizing t with
  | _ w ih =>
  subst hw
  have hvar : ∀ {b}, ∀ v c n, VariableIs r c v (some n) →
      StepsTo r (written (.typeVar v) c) (some n) → found n b →
      found (written (.typeVar v) c) b := fun v c n _ hsteps => hstep _ c n _ rfl rfl hsteps
  cases hwild : t.isWildcard with
  | false =>
    obtain ⟨b, hb⟩ := hclass t hwild fun u hu => ih u.weight hu u rfl
    exact ⟨b, fun n hn => hn.head_induction hb hvar⟩
  | true =>
    cases t with
    | wildcard upper lower =>
      cases hbound : r.wildcardBound? upper lower with
      | none =>
        refine ⟨stop, fun n hn => hn.head_induction (fun _ c h => ?_) hvar⟩
        cases h
        refine hstop upper lower c ((stepsTo_of_wildcard (expr_written ..) _).mpr ?_)
        rw [hbound]
        rfl
      | some bound =>
        by_cases hclosed : AllWellFormed r [] upper ∧ AllWellFormed r [] lower
        · obtain ⟨hlt, hreads⟩ := readsAs_wildcardBound hclosed.1 hclosed.2 hbound
          obtain ⟨b, hb⟩ := ih bound.weight hlt bound rfl
          refine ⟨b, fun n hn => hn.head_induction (fun _ c h => ?_) hvar⟩
          cases h
          refine hstep _ c (written bound c) b rfl rfl ?_ (hb _ (hreads c))
          rw [stepsTo_of_wildcard (expr_written ..), hbound]
          rfl
        · exact ⟨stop, fun n hn => (hclosed hn.wellFormed).elim⟩
    | _ => simp [TypeExpr.isWildcard] at hwild

/-- Nodes that read alike are arrays alike. -/
theorem exists_arrayIs_of_reads (r : Registry) (t : TypeExpr) :
    ∃ b, ∀ n, ReadsAs r n t → ArrayIs r n b := by
  refine exists_of_reads (ArrayIs r) false (fun t hwild _ => ?_) ?_ ?_ t
  · cases t with
    | plain a =>
      refine ⟨a.isArray, fun e c h => ?_⟩
      cases h
      exact (arrayIs_of_plain (expr_written ..) _).mpr rfl
    | parameterized raw args owner =>
      refine ⟨false, fun e c h => ?_⟩
      cases h
      exact arrayIs_of_head? (e := .ofClass raw) (by rw [expr_written]; rfl)
    | genericArray component =>
      refine ⟨true, fun e c h => ?_⟩
      cases h
      exact (arrayIs_of_genericArray (expr_written ..) _).mpr rfl
    | wildcard _ _ => simp [TypeExpr.isWildcard] at hwild
    | typeVar v => exact ⟨false, fun e c h => by cases h⟩
  · exact fun e c m b _ hfinal hsteps hm =>
      (arrayIs_of_step (by rwa [expr_written]) _).mpr ⟨some m, hsteps, hm⟩
  · exact fun upper lower c hsteps =>
      (arrayIs_of_step (by rw [expr_written]; rfl) _).mpr ⟨none, hsteps, rfl⟩

/-- Nodes that read alike have the same erasure. -/
theorem exists_resolvesTo_of_reads (r : Registry) (t : TypeExpr) :
    ∃ e, ∀ n, ReadsAs r n t → ResolvesTo r n e := by
  refine exists_of_reads (ResolvesTo r) none (fun t hwild ih => ?_) ?_ ?_ t
  · cases t with
    | plain a =>
      refine ⟨some a, fun e c h => ?_⟩
      cases h
      exact (resolvesTo_of_plain (expr_written ..) _).mpr rfl
    | parameterized raw args owner =>
      refine ⟨some (.ofClass raw), fun e c h => ?_⟩
      cases h
      exact resolvesTo_of_head? (by rw [expr_written]; rfl)
    | genericArray component =>
      obtain ⟨found, hfound⟩ := ih component (by rw [weight]; omega)
      refine ⟨found.bind (·.array?), fun e c h => ?_⟩
      cases h with
      | genericArray h =>
        refine (resolvesTo_of_genericArray (expr_written ..) _).mpr ?_
        exact ⟨_, (componentIs_genericArray_iff ..).mpr rfl, found, hfound _ h, rfl⟩
    | wildcard _ _ => simp [TypeExpr.isWildcard] at hwild
    | typeVar v => exact ⟨none, fun e c h => by cases h⟩
  · exact fun e c m b _ hfinal hsteps hm =>
      (resolvesTo_of_step (by rwa [expr_written]) _).mpr ⟨some m, hsteps, hm⟩
  · exact fun upper lower c hsteps =>
      (resolvesTo_of_step (by rw [expr_written]; rfl) _).mpr ⟨none, hsteps, rfl⟩

/-- The components of nodes that read alike do so too. -/
theorem exists_componentIs_of_reads (r : Registry) (t : TypeExpr) :
    ∃ u, ∀ n, ReadsAs r n t → ∃ c, ComponentIs r n c ∧ Option.Rel (ReadsAs r) c u := by
  refine exists_of_reads (fun n u => ∃ c, ComponentIs r n c ∧ Option.Rel (ReadsAs r) c u) none
    (fun t hwild ih => ?_) ?_ ?_ t
  · cases t with
    | plain a =>
      refine ⟨a.component?.map TypeExpr.plain, fun e c h => ?_⟩
      cases h with
      | plain hparams =>
        refine ⟨_, (componentIs_plain_iff ..).mpr rfl, ?_⟩
        cases harray : a.component? with
        | none => exact .none
        | some component =>
          have helement : component.element = a.element := by
            rw [Erasure.component?] at harray
            split at harray
            · exact (congrArg Erasure.element (Option.some.inj harray)).symm
            · simp at harray
          have hcomponent : (TypeExpr.plain component).WellFormed r [] := by
            rw [WellFormed, helement]
            exact hparams
          exact .some (readsAs_written hcomponent c)
    | parameterized raw args owner =>
      refine ⟨none, fun e c h => ?_⟩
      cases h with
      | @parameterized _ args' _ owner' _ _ _ =>
        refine ⟨none, ?_, .none⟩
        rw [componentIs_of_step (by rw [expr_written]; rfl)]
        exact ⟨_, (stepsTo_of_parameterized (expr_written ..) _).mpr rfl,
          (componentIs_plain_iff ..).mpr rfl⟩
    | genericArray component =>
      refine ⟨some component, fun e c h => ?_⟩
      cases h with
      | genericArray h => exact ⟨_, (componentIs_genericArray_iff ..).mpr rfl, .some h⟩
    | wildcard _ _ => simp [TypeExpr.isWildcard] at hwild
    | typeVar v => exact ⟨none, fun e c h => by cases h⟩
  · rintro e c m u - hfinal hsteps ⟨component, hcomponent, hreads⟩
    exact ⟨component, (componentIs_of_step (by rwa [expr_written]) _).mpr
      ⟨some m, hsteps, hcomponent⟩, hreads⟩
  · exact fun upper lower c hsteps => ⟨none, (componentIs_of_step (by rw [expr_written]; rfl) _).mpr
      ⟨none, hsteps, rfl⟩, .none⟩

/-- A type argument that is there and reads as an expression. -/
def ArgumentReadsAs (r : Registry) (arg : Option Node) (u : TypeExpr) : Prop :=
  ∃ a, arg = some a ∧ ReadsAs r a u

/-- The type arguments of nodes that read alike do so too. -/
theorem exists_genericsAre_of_reads (r : Registry) (t : TypeExpr) :
    ∃ us, ∀ n, ReadsAs r n t →
      ∃ args, GenericsAre r n args ∧ List.Forall₂ (ArgumentReadsAs r) args us := by
  refine exists_of_reads (fun n us => ∃ args, GenericsAre r n args ∧
    List.Forall₂ (ArgumentReadsAs r) args us) [] (fun t hwild ih => ?_) ?_ ?_ t
  · cases t with
    | plain a =>
      refine ⟨[], fun e c h => ?_⟩
      cases h with
      | plain hparams =>
        refine ⟨_, (genericsAre_plain_iff ..).mpr rfl, ?_⟩
        cases harray : a.isArray <;> simp [Erasure.asClass?, harray, hparams]
    | parameterized raw args owner =>
      refine ⟨args, fun e c h => ?_⟩
      cases h with
      | parameterized _ hargs =>
        refine ⟨_, (genericsAre_parameterized_iff ..).mpr rfl, ?_⟩
        rw [List.forall₂_map_left_iff]
        exact hargs.imp fun a u h => ⟨_, rfl, h⟩
    | genericArray component =>
      refine ⟨[], fun e c h => ?_⟩
      cases h with
      | genericArray _ =>
        refine ⟨[], (genericsAre_of_step rfl _).mpr ⟨none, ?_, rfl⟩, .nil⟩
        exact (stepsTo_of_genericArray (expr_written ..) _).mpr rfl
    | wildcard _ _ => simp [TypeExpr.isWildcard] at hwild
    | typeVar v => exact ⟨[], fun e c h => by cases h⟩
  · rintro e c m us hclass - hsteps ⟨args, hargs, hreads⟩
    exact ⟨args, (genericsAre_of_step hclass _).mpr ⟨some m, hsteps, hargs⟩, hreads⟩
  · exact fun upper lower c hsteps =>
      ⟨[], (genericsAre_of_step rfl _).mpr ⟨none, hsteps, rfl⟩, .nil⟩

/-- What nodes that read alike bind the parameters of their class to does so too. -/
theorem exists_variableIs_of_reads (r : Registry) (t : TypeExpr) :
    ∃ σ : TypeVarId → TypeExpr, ∀ n, ReadsAs r n t → ∀ e, ResolvesTo r n (some e) →
      ∀ v ∈ r.parametersOf e, ∃ b, VariableIs r (some n) v (some b) ∧ ReadsAs r b (σ v) := by
  refine exists_of_reads (fun n (σ : TypeVarId → TypeExpr) => ∀ e, ResolvesTo r n (some e) →
    ∀ v ∈ r.parametersOf e, ∃ b, VariableIs r (some n) v (some b) ∧ ReadsAs r b (σ v))
    (fun v => .typeVar v) (fun t hwild ih => ?_) ?_ ?_ t
  · cases t with
    | plain a =>
      refine ⟨fun v => .typeVar v, fun e c h found hfound v hv => ?_⟩
      cases h with
      | plain hparams =>
        obtain rfl := Option.some.inj ((resolvesTo_of_plain (expr_written ..) _).mp hfound)
        cases harray : found.isArray <;> simp [Registry.parametersOf, harray, hparams] at hv
    | parameterized raw args owner =>
      refine ⟨fun v => (r.bindings (.parameterized raw args owner) v).getD (.typeVar v),
        fun e c h found hfound v hv => ?_⟩
      cases h with
      | @parameterized _ args' _ owner' _ hlength hargs =>
        obtain rfl : Erasure.ofClass raw = found := by
          have hraw := resolvesTo_of_head? (r := r)
            (n := written (.parameterized raw args' owner') c) (e := .ofClass raw)
            (by rw [expr_written]; rfl)
          exact Option.some.inj (Finds.unique (resolve_steady r _) hraw hfound)
        have hv : v ∈ r.typeParameters raw := by simpa [Registry.parametersOf] using hv
        obtain ⟨i, hi⟩ := Option.isSome_iff_exists.mp (List.isSome_idxOf?.mpr hv)
        obtain ⟨hlt, -⟩ := List.idxOf?_eq_some_iff.mp hi
        have hlt : i < args'.length := by omega
        have hlt' : i < args.length := by rw [← hargs.length_eq]; exact hlt
        refine ⟨written args'[i] c, ?_, ?_⟩
        · rw [variableIs_parameterized_iff]
          simp [hi, hlt]
        · have hreads := hargs.get hlt hlt'
          simpa [Registry.bindings, hi, hlt'] using hreads
    | genericArray component =>
      refine ⟨fun v => .typeVar v, fun e c h found hfound v hv => ?_⟩
      cases h with
      | genericArray h =>
        obtain ⟨_, hc, hfound⟩ := (resolvesTo_of_genericArray (expr_written ..) _).mp hfound
        obtain rfl := (componentIs_genericArray_iff ..).mp hc
        obtain ⟨a, -, hfound⟩ := hfound
        obtain ⟨b, -, hb⟩ := Option.bind_eq_some_iff.mp hfound.symm
        simp [Registry.parametersOf, Erasure.isArray_of_array? hb] at hv
    | wildcard _ _ => simp [TypeExpr.isWildcard] at hwild
    | typeVar v => exact ⟨fun v => .typeVar v, fun e c h => by cases h⟩
  · intro e c m σ hclass hfinal hsteps hm found hfound v hv
    obtain ⟨t, ht, hfound⟩ := (resolvesTo_of_step (by rwa [expr_written]) _).mp hfound
    obtain rfl := hsteps.unique ht
    obtain ⟨b, hb, hreads⟩ := hm found hfound v hv
    refine ⟨b, ?_, hreads⟩
    cases e with
    | typeVar w => exact (variableIs_typeVar_iff ..).mpr ⟨some m, hsteps, hb⟩
    | wildcard upper lower =>
      have hm := (stepsTo_of_wildcard (expr_written ..) _).mp hsteps
      refine (variableIs_wildcard_iff ..).mpr ⟨some b, ?_, rfl⟩
      simpa [sibling] using hm ▸ hb
    | plain _ | parameterized _ _ _ => simp [TypeExpr.isClass] at hclass
    | genericArray _ => simp [TypeExpr.isFinal] at hfinal
  · intro upper lower c hsteps e he
    obtain ⟨t, ht, he⟩ := (resolvesTo_of_step (by rw [expr_written]; rfl) _).mp he
    obtain rfl := hsteps.unique ht
    simp at he

/-! ## Wildcards -/

/-- The bounds of a wildcard and their direction, whatever context they are read in. -/
def boundExprs (r : Registry) : List TypeExpr → List TypeExpr → WildcardKind × List TypeExpr
  | [], [] => ⟨.upper, [.ofClass r.wellKnown.object]⟩
  | upper, [] => ⟨.upper, upper⟩
  | _, lower => ⟨.lower, lower⟩

theorem boundsOf_eq (origin : Node) (upper lower : List TypeExpr) :
    boundsOf r origin upper lower =
      ⟨(boundExprs r upper lower).1, (boundExprs r upper lower).2.map origin.sibling⟩ := by
  cases upper <;> cases lower <;> rfl

theorem wellFormed_boundExprs (hobject : r.typeParameters r.wellKnown.object = [])
    {upper lower : List TypeExpr} (hupper : AllWellFormed r [] upper)
    (hlower : AllWellFormed r [] lower) : AllWellFormed r [] (boundExprs r upper lower).2 := by
  cases upper with
  | nil =>
    cases lower with
    | nil => exact ⟨hobject, trivial⟩
    | cons _ _ => exact hlower
  | cons _ _ =>
    cases lower with
    | nil => exact hupper
    | cons _ _ => exact hlower

/-- The bounds of a node that reads as a wildcard are written as in the wildcard. -/
theorem ReadsAs.boundsAre_wildcard {n : Node} {upper lower : List TypeExpr}
    (h : ReadsAs r n (.wildcard upper lower)) :
    BoundsAre r n (some (boundsOf r n upper lower)) := by
  have hall : ∀ origin, Finds (fun limit => wildcardBoundsFrom r origin limit n)
      (some (boundsOf r origin upper lower)) := by
    refine h.head_induction (P := fun n => ∀ origin, Finds
      (fun limit => wildcardBoundsFrom r origin limit n) (some (boundsOf r origin upper lower)))
      (fun e c h origin => ?_) fun v c b _ hsteps hb origin => ?_
    · cases h
      exact (wildcardBoundsFrom_of_wildcard (expr_written ..) _).mpr rfl
    · exact (wildcardBoundsFrom_of_step (by rw [expr_written]; rfl) _).mpr
        ⟨some b, hsteps, hb origin⟩
  exact hall n

/-- A node that reads as something else is no wildcard. -/
theorem ReadsAs.boundsAre_none {n : Node} {t : TypeExpr} (h : ReadsAs r n t)
    (hwild : t.isWildcard = false) : BoundsAre r n none := by
  have hall : ∀ origin, Finds (fun limit => wildcardBoundsFrom r origin limit n) none := by
    refine h.head_induction (P := fun n => ∀ origin, Finds
      (fun limit => wildcardBoundsFrom r origin limit n) none)
      (fun e c h origin => ?_) fun v c b _ hsteps hb origin => ?_
    · cases h with
      | plain _ =>
        exact (wildcardBoundsFrom_of_step (by rw [expr_written]; rfl) _).mpr
          ⟨none, (stepsTo_of_plain (expr_written ..) _).mpr rfl, rfl⟩
      | parameterized _ _ =>
        refine (wildcardBoundsFrom_of_step (by rw [expr_written]; rfl) _).mpr
          ⟨_, (stepsTo_of_parameterized (expr_written ..) _).mpr rfl, ?_⟩
        exact (wildcardBoundsFrom_of_step rfl _).mpr
          ⟨none, (stepsTo_of_plain (expr_written ..) _).mpr rfl, rfl⟩
      | genericArray _ =>
        exact (wildcardBoundsFrom_of_step (by rw [expr_written]; rfl) _).mpr
          ⟨none, (stepsTo_of_genericArray (expr_written ..) _).mpr rfl, rfl⟩
      | wildcard _ _ => simp [TypeExpr.isWildcard] at hwild
    · exact (wildcardBoundsFrom_of_step (by rw [expr_written]; rfl) _).mpr
        ⟨some b, hsteps, hb origin⟩
  exact hall n

/-- A node that is neither an array nor a wildcard resolves to a class. -/
theorem ReadsAs.exists_class {n : Node} {t : TypeExpr} (h : ReadsAs r n t)
    (harray : ArrayIs r n false) (hbounds : BoundsAre r n none) :
    ∃ c, ResolvesTo r n (some (.ofClass c)) := by
  have hfinds : ∀ {e}, ResolvesTo r (ofExpr t) (some e) → ReadsAs r (ofExpr t) t →
      ResolvesTo r n (some e) := by
    intro e he ht
    obtain ⟨found, hfound⟩ := exists_resolvesTo_of_reads r t
    obtain rfl := Finds.unique (resolve_steady r _) he (hfound _ ht)
    exact hfound n h
  have ht : ReadsAs r (ofExpr t) t := readsAs_written h.wellFormed none
  have harray' : ArrayIs r (ofExpr t) false := by
    obtain ⟨b, hb⟩ := exists_arrayIs_of_reads r t
    obtain rfl := harray.unique (hb n h)
    exact hb _ ht
  cases t with
  | plain e =>
    have he := (arrayIs_of_plain (expr_written ..) _).mp harray'
    obtain ⟨c, rfl⟩ := Registry.exists_eq_ofClass he.symm
    exact ⟨c, hfinds ((resolvesTo_of_plain (expr_written ..) _).mpr rfl) ht⟩
  | parameterized raw args owner =>
    exact ⟨raw, hfinds (resolvesTo_of_head? (by rw [ofExpr, expr_written]; rfl)) ht⟩
  | genericArray component =>
    simpa using (arrayIs_of_genericArray (expr_written ..) _).mp harray'
  | wildcard upper lower => simpa using hbounds.unique h.boundsAre_wildcard
  | typeVar v => simpa [WellFormed] using h.wellFormed

/-- A node that reads as an expression is compared by its own erasure, also if it is a variable. -/
theorem ReadsAs.sideIs {n : Node} {t : TypeExpr} (h : ReadsAs r n t) {e : Erasure}
    (he : ResolvesTo r n (some e)) (other : Node) (inside : Bool) :
    SideIs r n other inside ⟨e, inside, true⟩ := by
  refine h.head_induction (P := fun n => ResolvesTo r n (some e) →
    SideIs r n other inside ⟨e, inside, true⟩) (fun a c h he => ?_)
    (fun v c b hbound hsteps _ he => ?_) he
  · obtain ⟨limit, he⟩ := erasureIs_of_resolvesTo he
    refine .intro limit ?_
    cases h <;> simp only [ourSide, expr_written, he] <;> rfl
  · obtain ⟨m, hm, he⟩ := (resolvesTo_of_step (by rw [expr_written]; rfl) _).mp he
    obtain rfl := hsteps.unique hm
    have hbinds : Binds r c v (some b) := (binds_iff ..).mpr hbound
    have hall := (hbinds.eventually (resolveInContext_steady r c v)).and
      (Finds.eventually (resolve_steady r b) he)
    obtain ⟨limit, hbinds, he⟩ := hall.exists
    refine .intro limit ?_
    simp [ourSide, hbinds, resolveOption, he]

end Node

end TypeConversion
