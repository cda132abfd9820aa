import TypeConversion.Proofs.Node.Termination
import TypeConversion.Node.Assignable

/-!
# The plan of a comparison

A comparison of two nodes first finds out what it comes down to: an answer, or further comparisons.
`plan` is this first part; it does not compare anything itself.  `assignableFrom_eq` says that the
check carries out its plan.

Without circles in bounds and inheritance there is always a plan, so that a check can only run on
forever from one comparison to the next.
-/

namespace TypeConversion

namespace Node

open Walk

/-- What a comparison comes down to. -/
inductive Plan where
  /-- The answer is known. -/
  | decided (holds : Bool)
  /-- The components of two arrays are compared. -/
  | components (ours theirs : Option Node)
  /-- Every bound of a wildcard has to accept every one of the nodes. -/
  | bounds (kind : WildcardKind) (ours theirs : List Node)
  /-- The type arguments are compared one after the other. -/
  | arguments (pairs : List (Option Node × Option Node))
deriving DecidableEq

/-- Whether an erasure of theirs is one that our side admits. -/
def OurSide.admits (ours : Registry) (side : OurSide) (e : Erasure) : Bool :=
  if side.exact then side.erasure = e else ours.isAssignable side.erasure e

/-- The plan of a comparison in which neither side is a wildcard or both are arrays. -/
def argumentPlan (ours theirs : Registry) (limit : Nat) (n other : Node) (inside : Bool) :
    Walk Plan := do
  let side ← ourSide ours theirs limit n other inside
  let otherErasure ← resolveOr theirs limit other ours.object
  if !side.admits ours otherErasure then return .decided false
  else if !side.withArguments then return .decided true
  else
    let args ← generics ours limit n
    let view ← asErasure theirs limit (some other) side.erasure
    let otherArgs ← genericsOption theirs limit view
    if args.length ≠ otherArgs.length then return .decided false
    else return .arguments (args.zip otherArgs)

/-- The plan of a comparison by what is known of wildcards on both sides. -/
def boundsPlan (ours theirs : Registry) (limit : Nat) (n other : Node) (inside : Bool) :
    Option WildcardBounds → Option WildcardBounds → Walk Plan
  | some ourBounds, some theirBounds =>
    some (if ourBounds.kind = theirBounds.kind then
      .bounds ourBounds.kind ourBounds.bounds theirBounds.bounds else .decided false)
  | none, some _ => some (.decided false)
  | some ourBounds, none => some (.bounds ourBounds.kind ourBounds.bounds [other])
  | none, none => argumentPlan ours theirs limit n other inside

/-- The plan of a comparison. -/
def plan (ours theirs : Registry) (limit : Nat) (n other : Node) (guard : Option Guard) :
    Walk Plan := do
  if ← isArray ours limit n then
    if ← isArray theirs limit other then
      return .components (← componentType ours limit n) (← componentType theirs limit other)
    else return .decided false
  else if (guard.getD []).lookup n.expr = some other.expr then return .decided true
  else
    let ourBounds ← wildcardBounds ours limit n
    let theirBounds ← wildcardBounds theirs limit other
    boundsPlan ours theirs limit n other guard.isSome ourBounds theirBounds

/-- What a comparison does by its plan. -/
def carryOut (ours theirs : Registry) (limit : Nat) (n other : Node) (guard : Option Guard) :
    Plan → Walk (Bool × Option Guard)
  | .decided holds => some (holds, guard)
  | .components c otherComponent => do
    let (holds, _) ← assignableFrom limit ours theirs c otherComponent none
    return (holds, guard)
  | .bounds kind bounds types => do
    return (← acceptsAll limit ours theirs kind bounds types, guard)
  | .arguments pairs =>
    assignableArgs limit ours theirs pairs (some ((n.expr, other.expr) :: guard.getD []))

/-- The check carries out its plan. -/
theorem assignableFrom_eq (ours theirs : Registry) (limit : Nat) (n other : Node)
    (guard : Option Guard) :
    assignableFrom (limit + 1) ours theirs (some n) (some other) guard = (do
      carryOut ours theirs limit n other guard
        (← plan ours theirs limit n other guard)) := by
  rw [assignableFrom, plan]
  simp only [Option.bind_eq_bind, Option.bind_assoc]
  refine Option.bind_congr fun array _ => ?_
  cases array with
  | true =>
    simp only [if_true, Option.bind_assoc]
    refine Option.bind_congr fun otherArray _ => ?_
    cases otherArray with
    | false => rfl
    | true =>
      simp only [if_true, Option.bind_assoc]
      refine Option.bind_congr fun c _ => ?_
      refine Option.bind_congr fun otherComponent _ => ?_
      rfl
  | false =>
    simp only [Bool.false_eq_true, if_false]
    by_cases hguard : (guard.getD []).lookup n.expr = some other.expr
    · simp only [hguard, if_true]
      rfl
    · simp only [hguard, if_false, Option.bind_assoc]
      refine Option.bind_congr fun ourBounds _ => ?_
      refine Option.bind_congr fun theirBounds _ => ?_
      cases theirBounds with
      | some theirBounds =>
        cases ourBounds with
        | none => rfl
        | some ourBounds =>
          dsimp only [boundsPlan]
          by_cases hkind : ourBounds.kind = theirBounds.kind
          · simp only [hkind, if_true]
            rfl
          · simp only [hkind, if_false]
            rfl
      | none =>
        cases ourBounds with
        | some ourBounds => rfl
        | none =>
          dsimp only [boundsPlan]
          rw [argumentPlan]
          simp only [Option.bind_eq_bind, Option.bind_assoc]
          refine Option.bind_congr fun side _ => ?_
          refine Option.bind_congr fun otherErasure _ => ?_
          have hadmits : decide (if side.exact = true then side.erasure = otherErasure
              else ours.isAssignable side.erasure otherErasure = true) =
              side.admits ours otherErasure := by
            rw [OurSide.admits]
            cases side.exact <;> simp
          rw [hadmits]
          cases side.admits ours otherErasure with
          | false => rfl
          | true =>
            simp only [Bool.not_true, Bool.false_eq_true, if_false]
            cases side.withArguments with
            | false => rfl
            | true =>
              simp only [Bool.not_true, Bool.false_eq_true, if_false, Option.bind_assoc]
              refine Option.bind_congr fun args _ => ?_
              refine Option.bind_congr fun view _ => ?_
              refine Option.bind_congr fun otherArgs _ => ?_
              by_cases hlength : args.length = otherArgs.length
              · simp only [hlength, ne_eq, not_true_eq_false, if_false]
                rfl
              · simp only [hlength, ne_eq, not_false_eq_true, if_true]
                rfl

/-! ## Plans are steady -/

variable {r : Registry}

theorem wildcardBoundsFrom_steady (origin n : Node) :
    Steady fun limit => wildcardBoundsFrom r origin limit n := by
  refine steady_of_steps (wildcardBoundsFrom r origin) (fun _ => rfl) ?_ n
  intro limit more hle ih n
  rw [wildcardBoundsFrom, wildcardBoundsFrom]
  cases n.expr with
  | wildcard upper lower => exact .refl _
  | plain _ | parameterized _ _ _ | genericArray _ | typeVar _ =>
    refine (resolveType_steady r n limit more hle).bind ?_
    intro t
    cases t with
    | none => exact .refl _
    | some t => exact ih t

theorem resolveOr_steady (n : Node) (fallback : Erasure) :
    Steady fun limit => resolveOr r limit n fallback :=
  (resolve_steady r n).bind fun _ => .const _

theorem ourSide_steady (ours theirs : Registry) (n other : Node) (inside : Bool) :
    Steady fun limit => ourSide ours theirs limit n other inside := by
  have hopen : ∀ withArguments, Steady fun limit => do
      return (⟨← resolveOr ours limit n ours.object, false, withArguments⟩ : OurSide) :=
    fun _ => (resolveOr_steady n _).bind fun _ => .const _
  cases he : n.expr with
  | typeVar v =>
    simp only [ourSide, he]
    refine (resolveInContext_steady ours n.context v).bind fun bound => ?_
    refine (resolveOption_steady ours bound).bind fun e => ?_
    cases e with
    | some e => exact .const _
    | none =>
      refine (resolveInContext_steady theirs other.context v).bind fun bound => ?_
      cases bound with
      | none => exact hopen true
      | some bound =>
        refine (resolve_steady theirs bound).bind fun e => ?_
        cases e with
        | some e => exact .const _
        | none => exact hopen false
  | plain _ | parameterized _ _ _ | genericArray _ | wildcard _ _ =>
    simp only [ourSide, he]
    exact (resolveOr_steady n _).bind fun _ => .const _

theorem argumentPlan_steady (ours theirs : Registry) (n other : Node) (inside : Bool) :
    Steady fun limit => argumentPlan ours theirs limit n other inside := by
  refine (ourSide_steady ours theirs n other inside).bind fun side => ?_
  refine (resolveOr_steady other _).bind fun otherErasure => ?_
  refine Steady.ite (.const _) (Steady.ite (.const _) ?_)
  refine (generics_steady ours n).bind fun args => ?_
  refine (asErasure_steady theirs _ _).bind fun view => ?_
  exact (genericsOption_steady theirs view).bind fun otherArgs => Steady.ite (.const _) (.const _)

theorem boundsPlan_steady (ours theirs : Registry) (n other : Node) (inside : Bool)
    (ourBounds theirBounds : Option WildcardBounds) :
    Steady fun limit => boundsPlan ours theirs limit n other inside ourBounds theirBounds := by
  cases ourBounds with
  | none =>
    cases theirBounds with
    | none => exact argumentPlan_steady ours theirs n other inside
    | some _ => exact .const _
  | some _ => cases theirBounds <;> exact .const _

theorem plan_steady (ours theirs : Registry) (n other : Node) (guard : Option Guard) :
    Steady fun limit => plan ours theirs limit n other guard := by
  refine (isArray_steady ours n).bind fun array => Steady.ite ?_ (Steady.ite (.const _) ?_)
  · refine (isArray_steady theirs other).bind fun otherArray => Steady.ite ?_ (.const _)
    refine (componentType_steady ours n).bind fun _ => ?_
    exact (componentType_steady theirs other).bind fun _ => .const _
  · refine (wildcardBoundsFrom_steady n n).bind fun ourBounds => ?_
    refine (wildcardBoundsFrom_steady other other).bind fun theirBounds => ?_
    exact boundsPlan_steady ours theirs n other _ ourBounds theirBounds

/-! ## There is always a plan -/

/-- The bounds of a wildcard, read in the context of another node. -/
def boundsOf (r : Registry) (origin : Node) : List TypeExpr → List TypeExpr → WildcardBounds
  | [], [] => ⟨.upper, [origin.sibling (.ofClass r.wellKnown.object)]⟩
  | upper, [] => ⟨.upper, upper.map origin.sibling⟩
  | _, lower => ⟨.lower, lower.map origin.sibling⟩

theorem wildcardBoundsFrom_of_wildcard {origin n : Node} {upper lower : List TypeExpr}
    (h : n.expr = .wildcard upper lower) (found : Option WildcardBounds) :
    Finds (fun limit => wildcardBoundsFrom r origin limit n) found ↔
      found = some (boundsOf r origin upper lower) := by
  refine finds_of_eq rfl fun limit => ?_
  rw [wildcardBoundsFrom]
  simp only [h]
  cases lower <;> cases upper <;> rfl

theorem wildcardBoundsFrom_of_step {origin n : Node} (h : n.expr.isWildcard = false)
    (found : Option WildcardBounds) :
    Finds (fun limit => wildcardBoundsFrom r origin limit n) found ↔
      ∃ t, StepsTo r n t ∧
        match t with
        | some t => Finds (fun limit => wildcardBoundsFrom r origin limit t) found
        | none => found = none := by
  refine finds_step_iff (w := wildcardBoundsFrom r origin) (wildcardBoundsFrom_steady origin)
    rfl ?_ found
  intro limit
  rw [wildcardBoundsFrom]
  cases he : n.expr <;> first | rfl | simp [he, TypeExpr.isWildcard] at h

theorem exists_wildcardBoundsFrom (h : r.AcyclicBounds) (origin n : Node) :
    ∃ found, Finds (fun limit => wildcardBoundsFrom r origin limit n) found := by
  induction n using (below_wellFounded h).induction with
  | _ n ih =>
  cases hwild : n.expr.isWildcard with
  | true =>
    cases he : n.expr with
    | wildcard upper lower => exact ⟨_, (wildcardBoundsFrom_of_wildcard he _).mpr rfl⟩
    | _ => simp [he, TypeExpr.isWildcard] at hwild
  | false =>
    rcases exists_stepsTo h n with ⟨t, ht, hbelow⟩
    cases t with
    | none => exact ⟨none, (wildcardBoundsFrom_of_step hwild _).mpr ⟨none, ht, rfl⟩⟩
    | some t =>
      rcases ih t (hbelow t rfl) with ⟨found, hfound⟩
      exact ⟨found, (wildcardBoundsFrom_of_step hwild _).mpr ⟨some t, ht, hfound⟩⟩

theorem resolve_total (h : r.Acyclic) (n : Node) : Total fun limit => resolve r limit n :=
  ⟨resolve_steady r n, exists_resolvesTo h.bounds n⟩

theorem resolveOr_total (h : r.Acyclic) (n : Node) (fallback : Erasure) :
    Total fun limit => resolveOr r limit n fallback :=
  (resolve_total h n).bind fun _ => .const _

theorem resolveOption_total (h : r.Acyclic) (n : Option Node) :
    Total fun limit => resolveOption r limit n := by
  cases n with
  | none => exact .const _
  | some n => exact resolve_total h n

theorem generics_total (h : r.Acyclic) (n : Node) : Total fun limit => generics r limit n :=
  ⟨generics_steady r n, exists_genericsAre h.bounds n⟩

theorem genericsOption_total (h : r.Acyclic) (n : Option Node) :
    Total fun limit => genericsOption r limit n := by
  cases n with
  | none => exact .const _
  | some n => exact generics_total h n

theorem resolveInContext_total (h : r.Acyclic) (c : Option Node) (v : TypeVarId) :
    Total fun limit => resolveInContext r limit c v := by
  refine ⟨resolveInContext_steady r c v, ?_⟩
  cases c with
  | none => exact ⟨none, (binds_none_iff v _).mpr rfl⟩
  | some c =>
    rcases findsVariables h.bounds c v with ⟨bound, hbound, -⟩
    exact ⟨bound, (binds_some_iff c v bound).mpr hbound⟩

theorem ourSide_total (h : r.Acyclic) (n other : Node) (inside : Bool) :
    Total fun limit => ourSide r r limit n other inside := by
  have hother : Total fun limit => do
      return (⟨← resolveOr r limit n r.object, inside, true⟩ : OurSide) :=
    (resolveOr_total h n _).bind fun _ => .const _
  cases he : n.expr with
  | typeVar v =>
    simp only [ourSide, he]
    refine (resolveInContext_total h n.context v).bind fun bound => ?_
    refine (resolveOption_total h bound).bind fun e => ?_
    cases e with
    | some e => exact .const _
    | none =>
      refine (resolveInContext_total h other.context v).bind fun bound => ?_
      cases bound with
      | none => exact (resolveOr_total h n _).bind fun _ => .const _
      | some bound =>
        refine (resolve_total h bound).bind fun e => ?_
        cases e with
        | some e => exact .const _
        | none => exact (resolveOr_total h n _).bind fun _ => .const _
  | plain _ | parameterized _ _ _ | genericArray _ | wildcard _ _ =>
    simpa only [ourSide, he] using hother

theorem argumentPlan_total (h : r.Acyclic) (n other : Node) (inside : Bool) :
    Total fun limit => argumentPlan r r limit n other inside := by
  refine (ourSide_total h n other inside).bind fun side => ?_
  refine (resolveOr_total h other _).bind fun otherErasure => ?_
  refine Total.ite (.const _) (Total.ite (.const _) ?_)
  refine (generics_total h n).bind fun args => ?_
  have hview : Total fun limit => asErasure r limit (some other) side.erasure :=
    ⟨asErasure_steady r _ _, exists_viewIs h.bounds h.inheritance _ _⟩
  refine hview.bind fun view => ?_
  refine (genericsOption_total h view).bind fun otherArgs => ?_
  exact Total.ite (.const _) (.const _)

theorem plan_total (h : r.Acyclic) (n other : Node) (guard : Option Guard) :
    Total fun limit => plan r r limit n other guard := by
  have harray : ∀ n, Total fun limit => isArray r limit n := fun n =>
    ⟨isArray_steady r n, exists_arrayIs h.bounds n⟩
  have hcomponent : ∀ n, Total fun limit => componentType r limit n := fun n =>
    ⟨componentType_steady r n, exists_componentIs h.bounds n⟩
  have hbounds : ∀ n, Total fun limit => wildcardBounds r limit n := fun n =>
    ⟨wildcardBoundsFrom_steady n n, exists_wildcardBoundsFrom h.bounds n n⟩
  refine (harray n).bind fun array => Total.ite ?_ (Total.ite (.const _) ?_)
  · refine (harray other).bind fun otherArray => Total.ite ?_ (.const _)
    exact (hcomponent n).bind fun _ => (hcomponent other).bind fun _ => .const _
  · refine (hbounds n).bind fun ourBounds => (hbounds other).bind fun theirBounds => ?_
    cases ourBounds with
    | none =>
      cases theirBounds with
      | none => exact argumentPlan_total h n other guard.isSome
      | some _ => exact .const _
    | some _ => cases theirBounds <;> exact .const _

end Node

end TypeConversion
