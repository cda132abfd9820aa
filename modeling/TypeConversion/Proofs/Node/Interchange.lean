import TypeConversion.Proofs.Node.Resolution
import TypeConversion.Node.Text
import Mathlib.Data.List.Forall2

/-!
# Nodes that can take each other's place

A class applied to closed nodes and the same class written with type arguments are different nodes,
and so are all nodes that are read in the one or in the other.  `Interchange` relates such nodes.  A
walk from the one goes as the walk from the other does: they are cut off under the same limits, and
what they find is again related, so that nothing that is found tells the two apart.

The relation is the smallest that holds of the two classes and of equal nodes and is kept by reading
the same expression in related nodes.  Reading an expression in nodes that bind all variables alike
is allowed too.

**Results**

* `resolvesAlike`, `generics_rel`, `asErasure_rel`: the walks lead from related nodes to related
  ones;
* `resolve_eq`, `display_eq`: related nodes have the same erasure and the same text;
* `goAll_rel`: from related nodes any sequence of ways leads to related ones.
-/

namespace TypeConversion

namespace Walk

variable {α β γ δ : Type} {R : α → β → Prop} {S : γ → δ → Prop}

/-- Walks that are cut off together and go on alike from related places end in related ones. -/
theorem rel_bind {x : Walk α} {y : Walk β} {f : α → Walk γ} {g : β → Walk δ}
    (h : Option.Rel R x y) (hf : ∀ a b, R a b → Option.Rel S (f a) (g b)) :
    Option.Rel S (x >>= f) (y >>= g) := by
  cases h with
  | none => exact .none
  | some hab => exact hf _ _ hab

/-- Walks with the same results after walks that are cut off together. -/
theorem bind_eq_of_rel {x : Walk α} {y : Walk β} {f : α → Walk γ} {g : β → Walk γ}
    (h : Option.Rel R x y) (hf : ∀ a b, R a b → f a = g b) : x >>= f = y >>= g := by
  cases h with
  | none => rfl
  | some hab => exact hf _ _ hab

theorem rel_refl {R : α → α → Prop} (h : ∀ a, R a a) (x : Option α) : Option.Rel R x x := by
  cases x with
  | none => exact .none
  | some a => exact .some (h a)

/-- The same walk leads to the same place. -/
theorem rel_bind_same (x : Walk α) {f : α → Walk γ} {g : α → Walk δ}
    (hfg : ∀ a, Option.Rel S (f a) (g a)) : Option.Rel S (x >>= f) (x >>= g) :=
  rel_bind (rel_refl Eq.refl x) fun a _ h => h ▸ hfg a

/-- What is found by one of two walks that lead to related places has a counterpart. -/
theorem Finds.exists_rel {w : Nat → Walk α} {w' : Nat → Walk β}
    (hw : ∀ limit, Option.Rel R (w limit) (w' limit)) {a : α} (h : Finds w a) :
    ∃ b, Finds w' b ∧ R a b := by
  obtain ⟨limit, h⟩ := h
  have hlimit := hw limit
  rw [h] at hlimit
  generalize hb : w' limit = found at hlimit
  cases hlimit with
  | some hab => exact ⟨_, .intro limit hb, hab⟩

theorem rel_mono {R' : α → β → Prop} {x : Walk α} {y : Walk β} (h : Option.Rel R x y)
    (hR : ∀ a b, R a b → R' a b) : Option.Rel R' x y := by
  cases h with
  | none => exact .none
  | some hab => exact .some (hR _ _ hab)

end Walk

namespace Node

open Walk

variable {r : Registry}

/-- Nodes that no walk tells apart. -/
inductive Interchange (r : Registry) : Node → Node → Prop
  | refl (n : Node) : Interchange r n n
  /-- A class applied to closed nodes, and the class written with the same arguments. -/
  | spelled (c : ClassId) (args : List TypeExpr)
      (h : args.length = (r.typeParameters c).length) :
      Interchange r (applied c (r.typeParameters c) (args.map fun a => some (ofExpr a)))
        (ofExpr (.parameterized c args none))
  /-- An expression read in nodes that bind all variables alike. -/
  | bindAlike {o o' : Node}
      (h : ∀ limit v, resolveVariable r limit o v = resolveVariable r limit o' v)
      (e : TypeExpr) : Interchange r (written e (some o)) (written e (some o'))
  /-- An expression read in nodes that are related themselves. -/
  | readIn {o o' : Node} (h : Interchange r o o') (e : TypeExpr) :
      Interchange r (written e (some o)) (written e (some o'))

/-- Both nodes are missing, or neither is and they are related. -/
abbrev InterchangeOption (r : Registry) : Option Node → Option Node → Prop :=
  Option.Rel (Interchange r)

theorem InterchangeOption.refl (n : Option Node) : InterchangeOption r n n :=
  rel_refl Interchange.refl n

theorem found_refl (x : Walk (Option Node)) :
    Option.Rel (InterchangeOption r) x x :=
  rel_refl InterchangeOption.refl x

theorem forall₂_refl {α : Type} {R : α → α → Prop} (h : ∀ a, R a a) (xs : List α) :
    List.Forall₂ R xs xs :=
  List.forall₂_same.mpr fun a _ => h a

/-- Contexts in which an expression can be read with the same effect. -/
def ContextsAlike (r : Registry) (c c' : Option Node) : Prop :=
  ∀ e, Interchange r (written e c) (written e c')

/-- The expressions of nodes that are given for the parameters of a class. -/
theorem givenExprs_map_ofExpr (params : List TypeVarId) (args : List TypeExpr)
    (h : args.length = params.length) :
    givenExprs params (args.map fun a => some (ofExpr a)) = args := by
  induction params generalizing args with
  | nil =>
    obtain rfl : args = [] := by simpa using h
    rfl
  | cons v params ih =>
    cases args with
    | nil => simp at h
    | cons a args =>
      rw [List.map_cons, givenExprs, ih args (by simpa using h), givenExpr, ofExpr, expr_written]

namespace Interchange

variable {n n' : Node}

/-- Related nodes are made of the same expression. -/
theorem expr_eq (h : Interchange r n n') : n.expr = n'.expr := by
  cases h with
  | refl => rfl
  | spelled c args h => rw [expr, givenExprs_map_ofExpr _ _ h, ofExpr, expr_written]
  | bindAlike _ e | readIn _ e => simp

theorem contextsAlike (h : Interchange r n n') : ContextsAlike r n.context n'.context := by
  intro e
  cases h with
  | refl | spelled => exact .refl _
  | bindAlike h _ => exact .bindAlike h e
  | readIn h _ => exact .readIn h e

theorem sibling (h : Interchange r n n') (e : TypeExpr) :
    Interchange r (n.sibling e) (n'.sibling e) :=
  h.contextsAlike e

/-- Related nodes are equal, the two ways to give type arguments, or read in related contexts. -/
theorem cases_written (h : Interchange r n n') :
    n = n' ∨
    (∃ c args, args.length = (r.typeParameters c).length ∧
      n = applied c (r.typeParameters c) (args.map fun a => some (ofExpr a)) ∧
      n' = ofExpr (.parameterized c args none)) ∨
    ∃ e c c', n = written e c ∧ n' = written e c' ∧ ContextsAlike r c c' := by
  cases h with
  | refl => exact .inl rfl
  | spelled c args h => exact .inr (.inl ⟨c, args, h, rfl, rfl⟩)
  | bindAlike h e =>
    exact .inr (.inr ⟨e, _, _, rfl, rfl, fun e => .bindAlike h e⟩)
  | readIn h e => exact .inr (.inr ⟨e, _, _, rfl, rfl, fun e => .readIn h e⟩)

end Interchange

/-! ## Steps and variables -/

/-- The class applied to nodes and the written class bind the same variables at once. -/
theorem resolveVariable_spelled (c : ClassId) (args : List TypeExpr) (limit : Nat)
    (v : TypeVarId) :
    resolveVariable r limit
        (applied c (r.typeParameters c) (args.map fun a => some (ofExpr a))) v =
      resolveVariable r limit (ofExpr (.parameterized c args none)) v := by
  cases limit with
  | zero => rfl
  | succ limit =>
    rw [ofExpr, resolveVariable_parameterized, resolveVariable]
    cases (r.typeParameters c).idxOf? v with
    | none => simp [variableIn, resolveInContext]
    | some i => cases h : args[i]? <;> simp [h, ofExpr]

/-- Under a limit, related nodes lead to related nodes by one step and bind variables to related
nodes, themselves or by their contexts. -/
structure ResolvesAlike (r : Registry) (limit : Nat) : Prop where
  step : ∀ n n', Interchange r n n' →
    Option.Rel (InterchangeOption r) (resolveType r limit n) (resolveType r limit n')
  inContext : ∀ c c' v, ContextsAlike r c c' →
    Option.Rel (InterchangeOption r) (resolveInContext r limit c v) (resolveInContext r limit c' v)
  binding : ∀ n n' v, Interchange r n n' →
    Option.Rel (InterchangeOption r) (resolveVariable r limit n v) (resolveVariable r limit n' v)

namespace ResolvesAlike

variable {limit : Nat} (h : ResolvesAlike r limit)
include h

theorem step_succ {n n' : Node} (hn : Interchange r n n') :
    Option.Rel (InterchangeOption r) (resolveType r (limit + 1) n)
      (resolveType r (limit + 1) n') := by
  have hbound : ∀ e? : Option TypeExpr,
      InterchangeOption r (e?.map n.sibling) (e?.map n'.sibling) := by
    intro e?
    cases e? with
    | none => exact .none
    | some e => exact .some (hn.sibling e)
  rw [resolveType, resolveType, ← hn.expr_eq]
  cases n.expr with
  | typeVar v =>
    refine rel_bind (h.inContext _ _ v hn.contextsAlike) fun bound bound' hb => ?_
    cases hb with
    | none => exact .some (hbound _)
    | some hb => exact .some (.some hb)
  | parameterized raw _ _ => exact .some (.some (hn.sibling _))
  | wildcard upper lower => exact .some (hbound _)
  | plain _ | genericArray _ => exact found_refl _

theorem inContext_succ {c c' : Option Node} (v : TypeVarId) (hc : ContextsAlike r c c') :
    Option.Rel (InterchangeOption r) (resolveInContext r (limit + 1) c v)
      (resolveInContext r (limit + 1) c' v) := by
  cases hc (.typeVar v) with
  | refl => exact found_refl _
  | bindAlike hbind _ =>
    rw [resolveInContext, resolveInContext, hbind]
    exact found_refl _
  | readIn hn _ =>
    rw [resolveInContext, resolveInContext]
    exact h.binding _ _ v hn

theorem variableIn_rel {n n' : Option Node} (v : TypeVarId) (hn : InterchangeOption r n n') :
    Option.Rel (InterchangeOption r) (variableIn r limit n v) (variableIn r limit n' v) := by
  cases hn with
  | none => exact found_refl _
  | some hn => exact h.binding _ _ v hn

/-- What is not bound nearer is looked up in the contexts. -/
theorem orElse_rel {c c' bound bound' : Option Node} (v : TypeVarId)
    (hc : ContextsAlike r c c') : InterchangeOption r bound bound' →
    Option.Rel (InterchangeOption r)
      (match bound with
        | some bound => pure (some bound)
        | none => resolveInContext r limit c v)
      (match bound' with
        | some bound => pure (some bound)
        | none => resolveInContext r limit c' v) := by
  intro hbound
  cases hbound with
  | none => exact h.inContext c c' v hc
  | some hbound => exact .some (.some hbound)

theorem binding_succ {n n' : Node} (v : TypeVarId) (hn : Interchange r n n') :
    Option.Rel (InterchangeOption r) (resolveVariable r (limit + 1) n v)
      (resolveVariable r (limit + 1) n' v) := by
  rcases hn.cases_written with rfl | ⟨c, args, -, rfl, rfl⟩ | ⟨e, c, c', rfl, rfl, hc⟩
  · exact found_refl _
  · rw [resolveVariable_spelled]
    exact found_refl _
  · cases e with
    | typeVar w =>
      rw [resolveVariable_typeVar, resolveVariable_typeVar]
      exact rel_bind (h.step _ _ (hc _)) fun _ _ => h.variableIn_rel v
    | parameterized raw args owner =>
      rw [resolveVariable_parameterized, resolveVariable_parameterized]
      cases (r.typeParameters raw).idxOf? v with
      | some i =>
        refine .some ?_
        cases args[i]? with
        | none => exact .none
        | some a => exact .some (hc a)
      | none =>
        refine rel_bind (h.variableIn_rel v ?_) fun _ _ => h.orElse_rel v hc
        cases owner with
        | none => exact .none
        | some o => exact .some (hc o)
    | wildcard upper lower =>
      rw [resolveVariable_wildcard, resolveVariable_wildcard]
      exact rel_bind (h.step _ _ (hc _)) fun _ _ ht =>
        rel_bind (h.variableIn_rel v ht) fun _ _ => h.orElse_rel v hc
    | plain _ | genericArray _ =>
      rw [resolveVariable, resolveVariable]
      exact h.inContext c c' v hc

end ResolvesAlike

theorem resolvesAlike (limit : Nat) : ResolvesAlike r limit := by
  induction limit with
  | zero =>
    refine ⟨fun _ _ _ => .none, fun c c' v hc => ?_, fun _ _ _ _ => .none⟩
    cases hc (.typeVar v) with
    | refl => exact found_refl _
    | bindAlike _ _ | readIn _ _ => exact .none
  | succ limit ih =>
    exact ⟨fun _ _ => ih.step_succ, fun _ _ => ih.inContext_succ, fun _ _ => ih.binding_succ⟩

theorem Interchange.resolveType_rel {n n' : Node} (h : Interchange r n n') (limit : Nat) :
    Option.Rel (InterchangeOption r) (resolveType r limit n) (resolveType r limit n') :=
  (resolvesAlike limit).step n n' h

theorem ContextsAlike.resolveInContext_rel {c c' : Option Node} (h : ContextsAlike r c c')
    (limit : Nat) (v : TypeVarId) :
    Option.Rel (InterchangeOption r) (resolveInContext r limit c v)
      (resolveInContext r limit c' v) :=
  (resolvesAlike limit).inContext c c' v h

/-- A walk by single steps that finds the same once its walks from the next places do. -/
theorem step_eq {α : Type} {w : Node → Walk α} {d : Walk α} {n n' : Node}
    (h : Interchange r n n') (limit : Nat) (hw : ∀ n n', Interchange r n n' → w n = w n') :
    (do match ← resolveType r limit n with
        | some t => w t
        | none => d) =
      (do match ← resolveType r limit n' with
          | some t => w t
          | none => d) := by
  refine bind_eq_of_rel (h.resolveType_rel limit) fun t t' ht => ?_
  cases ht with
  | none => rfl
  | some ht => exact hw _ _ ht

/-- Walks by single steps that lead to related places once they do from the next nodes. -/
theorem step_rel {α : Type} {R : α → α → Prop} {w w' : Node → Walk α} {d : Walk α} {n n' : Node}
    (h : Interchange r n n') (limit : Nat) (hd : Option.Rel R d d)
    (hw : ∀ n n', Interchange r n n' → Option.Rel R (w n) (w' n')) :
    Option.Rel R
      (do match ← resolveType r limit n with
          | some t => w t
          | none => d)
      (do match ← resolveType r limit n' with
          | some t => w' t
          | none => d) := by
  refine rel_bind (h.resolveType_rel limit) fun t t' ht => ?_
  cases ht with
  | none => exact hd
  | some ht => exact hw _ _ ht

namespace Interchange

theorem isArray_eq {n n' : Node} (h : Interchange r n n') (limit : Nat) :
    isArray r limit n = isArray r limit n' := by
  induction limit generalizing n n' with
  | zero => rfl
  | succ limit ih =>
    rw [isArray, isArray, ← h.expr_eq]
    cases n.expr with
    | plain _ | genericArray _ => rfl
    | parameterized _ _ _ | wildcard _ _ | typeVar _ =>
      exact step_eq h limit fun _ _ h => ih h

theorem componentType_rel {n n' : Node} (h : Interchange r n n') (limit : Nat) :
    Option.Rel (InterchangeOption r) (componentType r limit n) (componentType r limit n') := by
  induction limit generalizing n n' with
  | zero => rw [componentType, componentType]; exact .none
  | succ limit ih =>
    have hstep : n.expr.isFinal = false →
        Option.Rel (InterchangeOption r) (componentType r (limit + 1) n)
          (componentType r (limit + 1) n') := by
      intro hfinal
      rw [componentType_of_step hfinal, componentType_of_step (h.expr_eq ▸ hfinal)]
      exact step_rel h limit (found_refl _) fun _ _ h => ih h
    rcases h.cases_written with rfl | ⟨c, args, -, rfl, rfl⟩ | ⟨e, c, c', rfl, rfl, hc⟩
    · exact found_refl _
    · exact hstep (by rw [expr]; rfl)
    · cases e with
      | plain e =>
        rw [componentType, componentType]
        · simp only [expr_written]
          refine .some ?_
          cases e.component? with
          | none => exact .none
          | some e => exact .some (hc _)
        all_goals simp
      | genericArray t =>
        rw [componentType, componentType]
        · exact .some (.some (hc t))
        all_goals simp
      | parameterized _ _ _ | wildcard _ _ | typeVar _ => exact hstep (by simp [TypeExpr.isFinal])

/-- Related nodes have the same erasure. -/
theorem resolve_eq {n n' : Node} (h : Interchange r n n') (limit : Nat) :
    resolve r limit n = resolve r limit n' := by
  induction limit generalizing n n' with
  | zero => rfl
  | succ limit ih =>
    rw [resolve, resolve, ← h.expr_eq]
    cases n.expr with
    | plain _ => rfl
    | genericArray _ =>
      refine bind_eq_of_rel (h.componentType_rel limit) fun c c' hc => ?_
      cases hc with
      | none => rfl
      | some hc => dsimp only; rw [ih hc]
    | parameterized _ _ _ | wildcard _ _ | typeVar _ =>
      exact step_eq h limit fun _ _ h => ih h

/-- The type arguments of related nodes are related. -/
theorem generics_rel {n n' : Node} (h : Interchange r n n') (limit : Nat) :
    Option.Rel (List.Forall₂ (InterchangeOption r)) (generics r limit n)
      (generics r limit n') := by
  have hrefl : ∀ x : Walk (List (Option Node)),
      Option.Rel (List.Forall₂ (InterchangeOption r)) x x :=
    rel_refl (forall₂_refl InterchangeOption.refl)
  induction limit generalizing n n' with
  | zero => rw [generics, generics]; exact .none
  | succ limit ih =>
    rcases h.cases_written with rfl | ⟨c, args, -, rfl, rfl⟩ | ⟨e, c, c', rfl, rfl, hc⟩
    · exact hrefl _
    · have hspelled : generics r (limit + 1) (ofExpr (.parameterized c args none)) =
          some (args.map fun a => some (ofExpr a)) := by
        rw [ofExpr, generics] <;> simp [Node.sibling, ofExpr]
      rw [hspelled, generics]
      exact hrefl _
    · rw [generics, generics]
      · simp only [expr_written]
        cases e with
        | plain e =>
          refine .some (List.forall₂_map_left_iff.mpr (List.forall₂_map_right_iff.mpr ?_))
          exact forall₂_refl (fun v => .some (.readIn (hc _) _)) _
        | parameterized raw args owner =>
          refine .some (List.forall₂_map_left_iff.mpr (List.forall₂_map_right_iff.mpr ?_))
          exact forall₂_refl (fun a => .some (hc a)) _
        | genericArray _ | wildcard _ _ | typeVar _ =>
          exact step_rel (hc _) limit (hrefl _) fun _ _ h => ih h
      all_goals simp

end Interchange

/-! ## Ways from node to node -/

theorem resolveOption_eq {n n' : Option Node} (h : InterchangeOption r n n') (limit : Nat) :
    resolveOption r limit n = resolveOption r limit n' := by
  cases h with
  | none => rfl
  | some h => exact h.resolve_eq limit

theorem genericsOption_rel {n n' : Option Node} (h : InterchangeOption r n n') (limit : Nat) :
    Option.Rel (List.Forall₂ (InterchangeOption r)) (genericsOption r limit n)
      (genericsOption r limit n') := by
  cases h with
  | none => exact .some .nil
  | some h => exact h.generics_rel limit

/-- Supertypes are read in the node itself. -/
theorem Interchange.superType_rel {n n' : Node} (h : Interchange r n n') (limit : Nat) :
    Option.Rel (InterchangeOption r) (superType r limit n) (superType r limit n') := by
  rw [superType, superType, ← h.resolve_eq]
  refine rel_bind_same _ fun e => ?_
  cases e with
  | none => exact found_refl _
  | some e =>
    refine .some ?_
    cases r.genericSuperclass e with
    | none => exact .none
    | some t => exact .some (.readIn h t)

theorem Interchange.interfaces_rel {n n' : Node} (h : Interchange r n n') (limit : Nat) :
    Option.Rel (List.Forall₂ (Interchange r)) (interfaces r limit n) (interfaces r limit n') := by
  rw [interfaces, interfaces, ← h.resolve_eq]
  refine rel_bind_same _ fun e => ?_
  cases e with
  | none => exact .some .nil
  | some e =>
    refine .some (List.forall₂_map_left_iff.mpr (List.forall₂_map_right_iff.mpr ?_))
    exact forall₂_refl (fun t => .readIn h t) _

theorem getElem?_rel {α : Type} {R : α → α → Prop} {xs ys : List α} (h : List.Forall₂ R xs ys)
    (i : Nat) : Option.Rel R xs[i]? ys[i]? := by
  induction h generalizing i with
  | nil => exact .none
  | cons hxy _ ih =>
    cases i with
    | zero => exact .some hxy
    | succ i => exact ih i

theorem genericAt_rel (limit : Nat) (path : List Nat) {n n' : Option Node}
    (h : InterchangeOption r n n') :
    Option.Rel (InterchangeOption r) (genericAt r limit path n) (genericAt r limit path n') := by
  induction path generalizing n n' with
  | nil => exact .some h
  | cons i path ih =>
    refine rel_bind (genericsOption_rel h limit) fun args args' hargs => ?_
    have hi := getElem?_rel hargs i
    generalize args[i]? = arg, args'[i]? = arg' at hi
    cases hi with
    | none => exact found_refl _
    | some harg => exact ih harg

theorem getGeneric_rel (limit : Nat) (path : List Nat) {n n' : Option Node}
    (h : InterchangeOption r n n') :
    Option.Rel (InterchangeOption r) (getGeneric r limit path n)
      (getGeneric r limit path n') := by
  cases path with
  | nil =>
    refine rel_bind (genericsOption_rel h limit) fun args args' hargs => .some ?_
    cases hargs with
    | nil => exact .none
    | cons harg _ => exact harg
  | cons i path => exact genericAt_rel limit (i :: path) h

theorem climb_rel (limit : Nat) {n n' : Option Node} (h : InterchangeOption r n n') :
    Option.Rel (InterchangeOption r) (climb r limit n) (climb r limit n') := by
  induction limit generalizing n n' with
  | zero =>
    cases h with
    | none => exact found_refl _
    | some h => exact .none
  | succ limit ih =>
    cases h with
    | none => exact found_refl _
    | some h =>
      rw [climb, climb]
      refine rel_bind (h.generics_rel limit) fun args args' hargs => ?_
      cases hargs with
      | nil => exact rel_bind (h.superType_rel limit) fun _ _ hs => ih hs
      | cons _ _ => exact .some (.some h)

theorem descend_rel (limit : Nat) (choice : Option Nat) {n n' : Option Node}
    (h : InterchangeOption r n n') :
    Option.Rel (InterchangeOption r) (descend r limit n choice)
      (descend r limit n' choice) := by
  cases h with
  | none => exact found_refl _
  | some h =>
    rw [descend, descend, ← h.isArray_eq]
    refine rel_bind_same _ fun array => ?_
    cases array with
    | true => exact h.componentType_rel limit
    | false =>
      refine rel_bind (climb_rel limit (.some h)) fun owner owner' howner => ?_
      refine rel_bind (genericsOption_rel howner limit) fun args args' hargs => ?_
      rw [hargs.length_eq]
      cases choice with
      | some i => exact getGeneric_rel limit [i] howner
      | none =>
        -- the last of the arguments, if there are any
        cases hargs with
        | nil => exact found_refl _
        | cons _ _ => exact getGeneric_rel limit _ howner

theorem descendFrom_rel (limit : Nat) (choices : Nat → Option Nat) (level count : Nat)
    {n n' : Option Node} (h : InterchangeOption r n n') :
    Option.Rel (InterchangeOption r) (descendFrom r limit choices level count n)
      (descendFrom r limit choices level count n') := by
  induction count generalizing level n n' with
  | zero => exact .some h
  | succ count ih => exact rel_bind (descend_rel limit _ h) fun _ _ hnext => ih (level + 1) hnext

/-- The view of a node and the first view among nodes. -/
theorem viewing_rel (limit : Nat) (target : Erasure) :
    (∀ n n', InterchangeOption r n n' →
      Option.Rel (InterchangeOption r) (asErasure r limit n target)
        (asErasure r limit n' target)) ∧
    (∀ ns ns', List.Forall₂ (Interchange r) ns ns' →
      Option.Rel (InterchangeOption r) (firstView r limit ns target)
        (firstView r limit ns' target)) := by
  induction limit with
  | zero =>
    constructor
    · intro n n' h
      cases h with
      | none => exact found_refl _
      | some h => exact .none
    · intro ns ns' h
      cases h with
      | nil => exact found_refl _
      | cons _ _ => exact .none
  | succ limit ih =>
    obtain ⟨hview, hfirst⟩ := ih
    constructor
    · intro n n' h
      cases h with
      | none => exact found_refl _
      | some h =>
        rw [asErasure, asErasure, ← h.resolve_eq]
        refine rel_bind_same _ fun e => ?_
        cases e with
        | none => exact .some (.some h)
        | some e =>
          dsimp only
          split
          · exact .some (.some h)
          · refine rel_bind (h.interfaces_rel limit) fun ns ns' hns => ?_
            refine rel_bind (hfirst ns ns' hns) fun view view' hfound => ?_
            cases hfound with
            | some hfound => exact .some (.some hfound)
            | none => exact rel_bind (h.superType_rel limit) hview
    · intro ns ns' h
      cases h with
      | nil => exact found_refl _
      | cons h hrest =>
        rw [firstView, firstView]
        refine rel_bind (hview _ _ (.some h)) fun view view' hfound => ?_
        cases hfound with
        | some hfound => exact .some (.some hfound)
        | none => exact hfirst _ _ hrest

theorem asErasure_rel (limit : Nat) (target : Erasure) {n n' : Option Node}
    (h : InterchangeOption r n n') :
    Option.Rel (InterchangeOption r) (asErasure r limit n target)
      (asErasure r limit n' target) :=
  (viewing_rel limit target).1 n n' h

/-- The ways that lead from a node to another one. -/
inductive Way where
  | generic (path : List Nat)
  | level (level : Nat) (choices : Nat → Option Nat)
  | view (c : ClassId)
  | superclass
  | interface (position : Nat)

/-- Where a way leads. -/
def go (r : Registry) (limit : Nat) (n : Option Node) : Way → Walk (Option Node)
  | .generic path => getGeneric r limit path n
  | .level level choices => nested r limit level choices n
  | .view c => asClass r limit n c
  | .superclass =>
    match n with
    | none => some none
    | some n => superType r limit n
  | .interface position =>
    match n with
    | none => some none
    | some n => do return (← interfaces r limit n)[position]?

/-- Where ways lead that are taken one after the other. -/
def goAll (r : Registry) (limit : Nat) : List Way → Option Node → Walk (Option Node)
  | [], n => some n
  | way :: ways, n => do goAll r limit ways (← go r limit n way)

theorem go_rel (limit : Nat) {n n' : Option Node} (h : InterchangeOption r n n') (way : Way) :
    Option.Rel (InterchangeOption r) (go r limit n way) (go r limit n' way) := by
  cases way with
  | generic path => exact getGeneric_rel limit path h
  | level level choices => exact descendFrom_rel limit choices 1 _ h
  | view c => exact asErasure_rel limit _ h
  | superclass =>
    cases h with
    | none => exact found_refl _
    | some h => exact h.superType_rel limit
  | interface position =>
    cases h with
    | none => exact found_refl _
    | some h =>
      exact rel_bind (h.interfaces_rel limit) fun ns ns' hns => .some (getElem?_rel hns position)

theorem goAll_rel (limit : Nat) (ways : List Way) {n n' : Option Node}
    (h : InterchangeOption r n n') :
    Option.Rel (InterchangeOption r) (goAll r limit ways n) (goAll r limit ways n') := by
  induction ways generalizing n n' with
  | nil => exact .some h
  | cons way ways ih => exact rel_bind (go_rel limit h way) fun _ _ hnext => ih hnext

/-! ## Texts -/

theorem Interchange.isOpenVariable_eq {n n' : Node} (h : Interchange r n n') (limit : Nat) :
    isOpenVariable r limit n = isOpenVariable r limit n' := by
  rw [isOpenVariable, isOpenVariable, ← h.expr_eq]
  cases n.expr with
  | typeVar v =>
    refine bind_eq_of_rel (h.contextsAlike.resolveInContext_rel limit v) fun b b' hb => ?_
    cases hb <;> rfl
  | plain _ | parameterized _ _ _ | genericArray _ | wildcard _ _ => rfl

/-- The texts of a node and of several nodes. -/
theorem displaying_eq (limit : Nat) :
    (∀ n n', InterchangeOption r n n' → display r limit n = display r limit n') ∧
    (∀ ns ns', List.Forall₂ (InterchangeOption r) ns ns' →
      displayAll r limit ns = displayAll r limit ns') := by
  induction limit with
  | zero =>
    constructor
    · intro n n' h
      cases h <;> rfl
    · intro ns ns' h
      cases h <;> rfl
  | succ limit ih =>
    obtain ⟨htext, htexts⟩ := ih
    constructor
    · intro n n' h
      cases h with
      | none => rfl
      | some h =>
        rw [display, display, ← h.isArray_eq, ← h.resolve_eq, ← h.isOpenVariable_eq]
        refine bind_congr fun array => ?_
        cases array with
        | true =>
          refine bind_eq_of_rel (h.componentType_rel limit) fun c c' hc => ?_
          rw [htext c c' hc]
        | false =>
          refine bind_congr fun e => ?_
          cases e with
          | none => rfl
          | some e =>
            refine bind_congr fun isOpen => ?_
            cases isOpen with
            | true => rfl
            | false =>
              refine bind_eq_of_rel (h.generics_rel limit) fun args args' hargs => ?_
              have htexts := htexts args args' hargs
              cases hargs with
              | nil => rfl
              | cons _ _ =>
                dsimp only
                rw [htexts]
    · intro ns ns' h
      cases h with
      | nil => rfl
      | cons h hrest => rw [displayAll, displayAll, htext _ _ h, htexts _ _ hrest]

/-- Related nodes have the same text. -/
theorem display_eq {n n' : Option Node} (h : InterchangeOption r n n') (limit : Nat) :
    display r limit n = display r limit n' :=
  (displaying_eq limit).1 n n' h

end Node

end TypeConversion
