import TypeConversion.Proofs.Assignable.Plan
import TypeConversion.Proofs.Node.Interchange
import TypeConversion.Registry.Bootstrap

/-!
# Comparing nodes that can take each other's place

A comparison comes out the same, and with the same pairs remembered, when a node on either side is
replaced by one that can take its place.  Together with what is known of the ways from node to node
this makes the two ways of giving type arguments to a class indistinguishable: as nodes for its
parameters, or written as type expressions.

**Results**

* `assignableFrom_eq_of_interchange`: comparisons of related nodes are the same under every limit;
* `applied_alike_written`: whatever ways are taken from a class with given arguments and from the
  same class with written ones, the nodes reached have the same erasure and text and compare alike
  with every other node.
-/

namespace TypeConversion

namespace Node

open Walk

variable {ours theirs : Registry}

/-! ## Plans -/

/-- Wildcards of the same kind with related bounds. -/
structure BoundsAlike (r : Registry) (b b' : WildcardBounds) : Prop where
  kind : b.kind = b'.kind
  bounds : List.Forall₂ (Interchange r) b.bounds b'.bounds

/-- Pairs of nodes of two registries that are related on each side. -/
structure PairsAlike (ours theirs : Registry) (p p' : Option Node × Option Node) : Prop where
  ours : InterchangeOption ours p.1 p'.1
  theirs : InterchangeOption theirs p.2 p'.2

/-- Plans that are the same up to related nodes. -/
inductive PlansAlike (ours theirs : Registry) : Plan → Plan → Prop
  | decided (holds : Bool) : PlansAlike ours theirs (.decided holds) (.decided holds)
  | components {c c' d d' : Option Node} (hc : InterchangeOption ours c c')
      (hd : InterchangeOption theirs d d') :
      PlansAlike ours theirs (.components c d) (.components c' d')
  | bounds (kind : WildcardKind) {bounds bounds' types types' : List Node}
      (hbounds : List.Forall₂ (Interchange ours) bounds bounds')
      (htypes : List.Forall₂ (Interchange theirs) types types') :
      PlansAlike ours theirs (.bounds kind bounds types) (.bounds kind bounds' types')
  | arguments {pairs pairs' : List (Option Node × Option Node)}
      (hpairs : List.Forall₂ (PairsAlike ours theirs) pairs pairs') :
      PlansAlike ours theirs (.arguments pairs) (.arguments pairs')

theorem forall₂_pairsAlike_zip {as as' bs bs' : List (Option Node)}
    (ha : List.Forall₂ (InterchangeOption ours) as as')
    (hb : List.Forall₂ (InterchangeOption theirs) bs bs') :
    List.Forall₂ (PairsAlike ours theirs) (as.zip bs) (as'.zip bs') := by
  induction ha generalizing bs bs' with
  | nil => exact .nil
  | cons hhead _ ih =>
    cases hb with
    | nil => exact .nil
    | cons hhead' hb => exact .cons ⟨hhead, hhead'⟩ (ih hb)

theorem forall₂_sibling {r : Registry} {origin origin' : Node} (h : Interchange r origin origin')
    (ts : List TypeExpr) :
    List.Forall₂ (Interchange r) (ts.map origin.sibling) (ts.map origin'.sibling) :=
  List.forall₂_map_left_iff.mpr (List.forall₂_map_right_iff.mpr (forall₂_refl h.sibling ts))

theorem wildcardBoundsFrom_rel {r : Registry} {origin origin' : Node}
    (horigin : Interchange r origin origin') (limit : Nat) {n n' : Node}
    (h : Interchange r n n') :
    Option.Rel (Option.Rel (BoundsAlike r)) (wildcardBoundsFrom r origin limit n)
      (wildcardBoundsFrom r origin' limit n') := by
  induction limit generalizing n n' with
  | zero => exact .none
  | succ limit ih =>
    rw [wildcardBoundsFrom, wildcardBoundsFrom, ← h.expr_eq]
    cases n.expr with
    | wildcard upper lower =>
      cases lower with
      | cons b lower => exact .some (.some ⟨rfl, forall₂_sibling horigin (b :: lower)⟩)
      | nil =>
        cases upper with
        | nil => exact .some (.some ⟨rfl, forall₂_sibling horigin [_]⟩)
        | cons b upper => exact .some (.some ⟨rfl, forall₂_sibling horigin (b :: upper)⟩)
    | plain _ | parameterized _ _ _ | genericArray _ | typeVar _ =>
      exact step_rel h limit (.some .none) fun _ _ h => ih h

theorem resolveOr_eq {r : Registry} {n n' : Node} (h : Interchange r n n') (limit : Nat)
    (fallback : Erasure) : resolveOr r limit n fallback = resolveOr r limit n' fallback := by
  rw [resolveOr, resolveOr, h.resolve_eq]

theorem ourSide_eq {n n' other other' : Node} (h : Interchange ours n n')
    (hother : Interchange theirs other other') (limit : Nat) (inside : Bool) :
    ourSide ours theirs limit n other inside = ourSide ours theirs limit n' other' inside := by
  rw [ourSide, ourSide, ← h.expr_eq, ← resolveOr_eq h]
  cases n.expr with
  | plain _ | parameterized _ _ _ | genericArray _ | wildcard _ _ => rfl
  | typeVar v =>
    refine bind_eq_of_rel (h.contextsAlike.resolveInContext_rel limit v) fun b b' hb => ?_
    rw [resolveOption_eq hb]
    refine bind_congr fun e => ?_
    cases e with
    | some e => rfl
    | none =>
      refine bind_eq_of_rel (hother.contextsAlike.resolveInContext_rel limit v)
        fun b b' hb => ?_
      cases hb with
      | none => rfl
      | some hb =>
        dsimp only
        rw [hb.resolve_eq]

theorem argumentPlan_rel {n n' other other' : Node} (h : Interchange ours n n')
    (hother : Interchange theirs other other') (limit : Nat) (inside : Bool) :
    Option.Rel (PlansAlike ours theirs) (argumentPlan ours theirs limit n other inside)
      (argumentPlan ours theirs limit n' other' inside) := by
  rw [argumentPlan, argumentPlan, ← ourSide_eq h hother, ← resolveOr_eq hother]
  refine rel_bind_same _ fun side => ?_
  refine rel_bind_same _ fun e => ?_
  cases side.admits ours e with
  | false => exact .some (.decided false)
  | true =>
    cases side.withArguments with
    | false => exact .some (.decided true)
    | true =>
      refine rel_bind (h.generics_rel limit) fun args args' hargs => ?_
      refine rel_bind (asErasure_rel limit _ (.some hother)) fun view view' hview => ?_
      refine rel_bind (genericsOption_rel hview limit) fun theirArgs theirArgs' htheirs => ?_
      rw [hargs.length_eq, htheirs.length_eq]
      split
      · exact .some (.decided false)
      · exact .some (.arguments (forall₂_pairsAlike_zip hargs htheirs))

theorem plan_rel {n n' other other' : Node} (h : Interchange ours n n')
    (hother : Interchange theirs other other') (limit : Nat) (guard : Option Guard) :
    Option.Rel (PlansAlike ours theirs) (plan ours theirs limit n other guard)
      (plan ours theirs limit n' other' guard) := by
  rw [plan, plan, ← h.isArray_eq, ← hother.isArray_eq, ← h.expr_eq, ← hother.expr_eq]
  refine rel_bind_same _ fun array => ?_
  cases array with
  | true =>
    refine rel_bind_same _ fun otherArray => ?_
    cases otherArray with
    | false => exact .some (.decided false)
    | true =>
      refine rel_bind (h.componentType_rel limit) fun c c' hc => ?_
      exact rel_bind (hother.componentType_rel limit) fun d d' hd => .some (.components hc hd)
  | false =>
    simp only [Bool.false_eq_true, if_false]
    split
    · exact .some (.decided true)
    · refine rel_bind (wildcardBoundsFrom_rel h limit h) fun b b' hb => ?_
      refine rel_bind (wildcardBoundsFrom_rel hother limit hother) fun d d' hd => ?_
      cases hb with
      | none =>
        cases hd with
        | none => exact argumentPlan_rel h hother limit guard.isSome
        | some _ => exact .some (.decided false)
      | some hb =>
        cases hd with
        | none =>
          rw [boundsPlan, boundsPlan, hb.kind]
          exact .some (.bounds _ hb.bounds (.cons hother .nil))
        | some hd =>
          rw [boundsPlan, boundsPlan, hb.kind, hd.kind]
          split
          · exact .some (.bounds _ hb.bounds hd.bounds)
          · exact .some (.decided false)

/-! ## Comparisons -/

/-- Under a limit, comparisons of related nodes are the same: of two nodes, of paired arguments, and
of bounds with what they have to accept. -/
structure ComparesAlike (limit : Nat) : Prop where
  nodes : ∀ ours theirs {n n' other other'} guard, InterchangeOption ours n n' →
    InterchangeOption theirs other other' →
    assignableFrom limit ours theirs n other guard =
      assignableFrom limit ours theirs n' other' guard
  args : ∀ ours theirs {pairs pairs'} guard, List.Forall₂ (PairsAlike ours theirs) pairs pairs' →
    assignableArgs limit ours theirs pairs guard = assignableArgs limit ours theirs pairs' guard
  all : ∀ ours theirs kind {bounds bounds' types types'},
    List.Forall₂ (Interchange ours) bounds bounds' →
    List.Forall₂ (Interchange theirs) types types' →
    acceptsAll limit ours theirs kind bounds types =
      acceptsAll limit ours theirs kind bounds' types'
  each : ∀ ours theirs kind {bound bound' types types'}, Interchange ours bound bound' →
    List.Forall₂ (Interchange theirs) types types' →
    acceptsEach limit ours theirs kind bound types =
      acceptsEach limit ours theirs kind bound' types'

namespace ComparesAlike

theorem zero : ComparesAlike 0 where
  nodes _ _ _ _ _ _ _ _ _ := rfl
  args _ _ _ _ _ h := by cases h <;> rfl
  all _ _ _ _ _ _ _ h _ := by cases h <;> rfl
  each _ _ _ _ _ _ _ _ h := by cases h <;> rfl

variable {limit : Nat} (h : ComparesAlike limit)
include h

/-- What is carried out of related plans is the same. -/
theorem nodes_succ {n n' other other' : Option Node} (guard : Option Guard)
    (hn : InterchangeOption ours n n') (hother : InterchangeOption theirs other other') :
    assignableFrom (limit + 1) ours theirs n other guard =
      assignableFrom (limit + 1) ours theirs n' other' guard := by
  cases hn with
  | none => rfl
  | some hn =>
    cases hother with
    | none => rfl
    | some hother =>
      rw [assignableFrom_eq, assignableFrom_eq]
      refine bind_eq_of_rel (plan_rel hn hother limit guard) fun plan plan' hplan => ?_
      cases hplan with
      | decided holds => rfl
      | components hc hd => rw [carryOut, carryOut, h.nodes _ _ none hc hd]
      | bounds kind hbounds htypes => rw [carryOut, carryOut, h.all _ _ kind hbounds htypes]
      | arguments hpairs =>
        rw [carryOut, carryOut, ← hn.expr_eq, ← hother.expr_eq, h.args _ _ _ hpairs]

theorem args_succ {pairs pairs' : List (Option Node × Option Node)} (guard : Option Guard)
    (hpairs : List.Forall₂ (PairsAlike ours theirs) pairs pairs') :
    assignableArgs (limit + 1) ours theirs pairs guard =
      assignableArgs (limit + 1) ours theirs pairs' guard := by
  cases hpairs with
  | nil => rfl
  | cons hpair hrest =>
    rw [assignableArgs, assignableArgs, h.nodes _ _ guard hpair.ours hpair.theirs]
    refine bind_congr fun ⟨holds, guard⟩ => ?_
    dsimp only
    rw [h.args _ _ guard hrest]

theorem all_succ (kind : WildcardKind) {bounds bounds' types types' : List Node}
    (hbounds : List.Forall₂ (Interchange ours) bounds bounds')
    (htypes : List.Forall₂ (Interchange theirs) types types') :
    acceptsAll (limit + 1) ours theirs kind bounds types =
      acceptsAll (limit + 1) ours theirs kind bounds' types' := by
  cases hbounds with
  | nil => rfl
  | cons hbound hrest =>
    rw [acceptsAll, acceptsAll, h.each _ _ kind hbound htypes, h.all _ _ kind hrest htypes]

theorem each_succ (kind : WildcardKind) {bound bound' : Node} {types types' : List Node}
    (hbound : Interchange ours bound bound')
    (htypes : List.Forall₂ (Interchange theirs) types types') :
    acceptsEach (limit + 1) ours theirs kind bound types =
      acceptsEach (limit + 1) ours theirs kind bound' types' := by
  cases htypes with
  | nil => rfl
  | cons htype hrest =>
    simp only [acceptsEach]
    rw [h.each _ _ kind hbound hrest, h.nodes ours theirs none (.some hbound) (.some htype),
      h.nodes theirs ours none (.some htype) (.some hbound)]

end ComparesAlike

theorem comparesAlike (limit : Nat) : ComparesAlike limit := by
  induction limit with
  | zero => exact .zero
  | succ limit ih =>
    exact ⟨fun _ _ => ih.nodes_succ, fun _ _ => ih.args_succ, fun _ _ => ih.all_succ,
      fun _ _ => ih.each_succ⟩

/-- Comparisons of related nodes are the same. -/
theorem assignableFrom_eq_of_interchange {n n' other other' : Option Node}
    (h : InterchangeOption ours n n') (hother : InterchangeOption theirs other other')
    (limit : Nat) (guard : Option Guard) :
    assignableFrom limit ours theirs n other guard =
      assignableFrom limit ours theirs n' other' guard :=
  (comparesAlike limit).nodes ours theirs guard h hother

theorem isAssignableFrom_eq_of_interchange {n n' other other' : Option Node}
    (h : InterchangeOption ours n n') (hother : InterchangeOption theirs other other')
    (limit : Nat) :
    isAssignableFrom limit ours theirs n other = isAssignableFrom limit ours theirs n' other' := by
  rw [isAssignableFrom, isAssignableFrom, assignableFrom_eq_of_interchange h hother]

/-! ## Given and written type arguments -/

/-- Two nodes about which every question has the same answer, under each limit. -/
structure AnswersAlike (r : Registry) (n n' : Option Node) : Prop where
  resolve : ∀ limit, resolveOption r limit n = resolveOption r limit n'
  display : ∀ limit, display r limit n = display r limit n'
  accepts : ∀ limit theirs other,
    isAssignableFrom limit r theirs n other = isAssignableFrom limit r theirs n' other
  accepted : ∀ limit ours other,
    isAssignableFrom limit ours r other n = isAssignableFrom limit ours r other n'

theorem answersAlike_of_interchange {r : Registry} {n n' : Option Node}
    (h : InterchangeOption r n n') : AnswersAlike r n n' where
  resolve := resolveOption_eq h
  display := display_eq h
  accepts limit _ other :=
    isAssignableFrom_eq_of_interchange h (.refl other) limit
  accepted limit _ other :=
    isAssignableFrom_eq_of_interchange (.refl other) h limit

/--
A class with type arguments is the same type whether the arguments are given as nodes or written:
along the same ways from the two the nodes reached answer alike.
-/
theorem applied_alike_written (r : Registry) (c : ClassId) (args : List TypeExpr)
    (hargs : args ≠ []) (hlength : args.length = (r.typeParameters c).length) :
    ∃ n, ofClassWith r c (args.map fun a => some (ofExpr a)) = .ok n ∧
      ∀ limit ways, Option.Rel (AnswersAlike r) (goAll r limit ways (some n))
        (goAll r limit ways (some (ofExpr (.parameterized c args none)))) := by
  refine ⟨applied c (r.typeParameters c) (args.map fun a => some (ofExpr a)), ?_, ?_⟩
  · simp [ofClassWith, hlength, hargs]
  · intro limit ways
    exact rel_mono (goAll_rel limit ways (.some (.spelled c args hlength))) fun _ _ h =>
      answersAlike_of_interchange h

/-- The arguments of a map from strings to lists of numbers. -/
def namedNumbers : List TypeExpr :=
  [.ofClass Bootstrap.wellKnown.string,
    .parameterized Bootstrap.wellKnown.list [.ofClass Bootstrap.wellKnown.integer] none]

theorem hashMap_alike_written :
    namedNumbers ≠ [] ∧
      namedNumbers.length =
        (Registry.bootstrap.typeParameters Bootstrap.wellKnown.hashMap).length ∧
      ∃ n, ofClassWith .bootstrap Bootstrap.wellKnown.hashMap
          (namedNumbers.map fun a => some (ofExpr a)) = .ok n ∧
        ∀ limit ways, Option.Rel (AnswersAlike .bootstrap)
          (goAll .bootstrap limit ways (some n))
          (goAll .bootstrap limit ways
            (some (ofExpr (.parameterized Bootstrap.wellKnown.hashMap namedNumbers none)))) :=
  ⟨by decide, by decide, applied_alike_written .bootstrap _ _ (by decide) (by decide)⟩

end Node

end TypeConversion
