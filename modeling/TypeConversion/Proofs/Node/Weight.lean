import TypeConversion.Proofs.Node.Termination
import Mathlib.Data.Set.Finite.List
import Mathlib.Data.Set.Finite.Lattice

/-!
# The weight of the expressions met

Walks over nodes meet no type expressions that are larger than those of the registry and of the
nodes they start from.  Of a bounded size there are finitely many.

**Results**

* `TypeExpr.finite_weight_le`: finitely many type expressions have a bounded weight;
* `fits_of_stepsTo`, `fits_of_componentIs`, `fits_of_genericsAre`, `fits_of_viewIs`: walks keep
  within the bound;
* `exists_fits`: every registry and every node has a bound.
-/

namespace TypeConversion

namespace TypeExpr

theorem length_le_weightAll (ts : List TypeExpr) : ts.length ≤ weightAll ts := by
  induction ts with
  | nil => simp
  | cons t rest ih =>
    have := t.weight_pos
    rw [weightAll, List.length_cons]
    omega

/-- Finitely many lists of bounded length have all their elements in a finite set. -/
theorem finite_lists {s : Set TypeExpr} (hs : s.Finite) (n : Nat) :
    {ts : List TypeExpr | ts.length ≤ n ∧ ∀ t ∈ ts, t ∈ s}.Finite := by
  have hfinite : Finite s := hs
  refine ((List.finite_length_le s n).image fun ts => ts.map Subtype.val).subset ?_
  rintro ts ⟨hlength, hall⟩
  refine ⟨ts.pmap Subtype.mk hall, by simpa using hlength, ?_⟩
  simp [List.map_pmap]

/-- Finitely many type expressions have a bounded weight. -/
theorem finite_weight_le (k : Nat) : {t : TypeExpr | t.weight ≤ k}.Finite := by
  induction k with
  | zero =>
    refine Set.finite_empty.subset fun t ht => ?_
    have := t.weight_pos
    simp only [Set.mem_ofPred_eq] at ht
    omega
  | succ k ih =>
    let small := {t : TypeExpr | t.weight ≤ k}
    let lists := {ts : List TypeExpr | ts.length ≤ k ∧ ∀ t ∈ ts, t ∈ small}
    have hlists : lists.Finite := finite_lists ih k
    have hmem : ∀ {ts}, weightAll ts ≤ k → ts ∈ lists := fun {ts} h =>
      ⟨(length_le_weightAll ts).trans h, fun t ht => (weight_le_weightAll ht).trans h⟩
    have hplain := Set.finite_univ.image (fun e : Erasure => plain e)
    have hvar := Set.finite_univ.image (fun v : TypeVarId => typeVar v)
    have harray := ih.image genericArray
    have hwildcard := Set.Finite.image2 wildcard hlists hlists
    have hclass := ((Set.finite_univ (α := ClassId)).prod (hlists.prod
      ((ih.image some).insert none))).image fun p => parameterized p.1 p.2.1 p.2.2
    refine (hplain.union (hvar.union (harray.union (hwildcard.union hclass)))).subset ?_
    intro t ht
    cases t with
    | plain e => exact .inl ⟨e, trivial, rfl⟩
    | typeVar v => exact .inr (.inl ⟨v, trivial, rfl⟩)
    | genericArray c =>
      simp only [Set.mem_ofPred_eq, weight] at ht
      exact .inr (.inr (.inl ⟨c, by simp only [Set.mem_ofPred_eq]; omega, rfl⟩))
    | wildcard upper lower =>
      simp only [Set.mem_ofPred_eq, weight] at ht
      exact .inr (.inr (.inr (.inl ⟨upper, hmem (by omega), lower, hmem (by omega), rfl⟩)))
    | parameterized raw args owner =>
      simp only [Set.mem_ofPred_eq, weight] at ht
      have hargs : args ∈ lists := hmem (by omega)
      have howner : owner ∈ insert none (some '' small) := by
        cases owner with
        | none => exact .inl rfl
        | some o =>
          simp only [weightOption] at ht
          exact .inr ⟨o, by simp only [small, Set.mem_ofPred_eq]; omega, rfl⟩
      exact .inr (.inr (.inr (.inr ⟨(raw, args, owner), ⟨trivial, hargs, howner⟩, rfl⟩)))

end TypeExpr

namespace Registry

/-- The type expressions that walks read from a registry: supertypes and bounds. -/
def declaredExprs (r : Registry) : List TypeExpr :=
  r.classes.toList.flatMap (fun d => d.superClass.toList ++ d.interfaces) ++
    r.typeParams.toList.flatMap (·.upperBounds)

/-- No type expression of the registry is heavier than a bound. -/
def Fits (k : Nat) (r : Registry) : Prop := 1 ≤ k ∧ ∀ t ∈ r.declaredExprs, t.weight ≤ k

variable {r : Registry} {k : Nat}

theorem Fits.declaredBound (h : r.Fits k) {v : TypeVarId} {b : TypeExpr}
    (hb : r.declaredBound? v = some b) : b.weight ≤ k := by
  obtain ⟨d, hd, hb⟩ := Option.bind_eq_some_iff.mp hb
  refine h.2 b (List.mem_append_right _ (List.mem_flatMap.mpr ⟨d, ?_, firstBound?_mem hb⟩))
  exact Array.mem_toList_iff.mpr (Array.mem_of_getElem? hd)

theorem Fits.ofClass (h : r.Fits k) (c : ClassId) : (TypeExpr.ofClass c).weight ≤ k := by
  rw [TypeExpr.weight_ofClass]
  exact h.1

theorem Fits.supertype (h : r.Fits k) {e : Erasure} {t : TypeExpr} (ht : r.IsSupertype e t) :
    t.weight ≤ k := by
  have hclass : ∀ {d}, r.class? e.element = some d → t ∈ d.superClass.toList ++ d.interfaces →
      t.weight ≤ k := by
    intro d hd ht
    refine h.2 t (List.mem_append_left _ (List.mem_flatMap.mpr ⟨d, ?_, ht⟩))
    exact Array.mem_toList_iff.mpr (Array.mem_of_getElem? hd)
  rcases ht with ht | ht
  · rw [genericSuperclass] at ht
    split at ht
    · obtain rfl := Option.some.inj ht
      exact h.ofClass _
    · split at ht
      · simp at ht
      · rename_i d hd
        split at ht
        · simp at ht
        · cases hs : d.superClass with
          | none =>
            obtain rfl : TypeExpr.ofClass r.wellKnown.object = t := by simpa [hs] using ht
            exact h.ofClass _
          | some s =>
            obtain rfl : s = t := by simpa [hs] using ht
            exact hclass hd (by simp [hs])
  · rw [genericInterfaces] at ht
    split at ht
    · rcases List.mem_cons.mp ht with rfl | ht
      · exact h.ofClass _
      · obtain rfl := List.mem_singleton.mp ht
        exact h.ofClass _
    · cases hd : r.class? e.element with
      | none => simp [hd] at ht
      | some d => exact hclass hd (List.mem_append_right _ (by simpa [hd] using ht))

end Registry

namespace Node

mutual

/-- No type expression in a node is heavier than a bound. -/
def Fits (k : Nat) : Node → Prop
  | written e none => e.weight ≤ k
  | written e (some c) => e.weight ≤ k ∧ Fits k c
  | arrayOf n => n.expr.arrayOf.weight ≤ k ∧ Fits k n
  | applied raw params given =>
    (expr (applied raw params given)).weight ≤ k ∧ FitsGiven k given

/-- The same for all given nodes. -/
def FitsGiven (k : Nat) : List (Option Node) → Prop
  | [] => True
  | none :: rest => FitsGiven k rest
  | some n :: rest => Fits k n ∧ FitsGiven k rest

end

variable {r : Registry} {k : Nat}

theorem FitsGiven.mem {given : List (Option Node)} (h : FitsGiven k given) {n : Node}
    (hn : some n ∈ given) : n.Fits k := by
  induction given with
  | nil => simp at hn
  | cons head rest ih =>
    cases head with
    | none => exact ih h ((List.mem_cons.mp hn).resolve_left (by simp))
    | some m =>
      rcases List.mem_cons.mp hn with heq | hn
      · obtain rfl := Option.some.inj heq
        exact h.1
      · exact ih h.2 hn

theorem Fits.expr {n : Node} (h : n.Fits k) : n.expr.weight ≤ k := by
  cases n with
  | written e c =>
    rw [expr_written]
    cases c with
    | none => exact h
    | some c => exact h.1
  | arrayOf n =>
    rw [Node.expr]
    exact h.1
  | applied raw params given => exact h.1

theorem Fits.context {n c : Node} (h : n.Fits k) (hc : n.context = some c) : c.Fits k := by
  cases n with
  | written e c' =>
    obtain rfl : c' = some c := hc
    exact h.2
  | arrayOf _ | applied _ _ _ => simp [Node.context] at hc

/-- A light type expression read in a context that fits. -/
theorem fits_written {e : TypeExpr} {c : Option Node} (he : e.weight ≤ k)
    (hc : ∀ n ∈ c, n.Fits k) : (written e c).Fits k := by
  cases c with
  | none => exact he
  | some c => exact ⟨he, hc c rfl⟩

theorem Fits.sibling {n : Node} (h : n.Fits k) {e : TypeExpr} (he : e.weight ≤ k) :
    (n.sibling e).Fits k :=
  fits_written he fun _ hc => h.context hc

/-- What a type expression unfolds to without bounds of variables is no heavier. -/
theorem Fits.unfolds (hr : r.Fits k) {t u : TypeExpr} (ht : t.weight ≤ k)
    (h : r.Unfolds t u) : u.weight ≤ k := by
  rcases h.weight_lt with hlt | ⟨v, rfl⟩
  · omega
  · cases h with
    | typeVar hb => exact hr.declaredBound hb

theorem fits_of_stepsTo (hr : r.Fits k) {n t : Node} (hn : n.Fits k)
    (hcontext : ∀ c, n.context = some c → ∀ v b, VariableIs r (some c) v (some b) → b.Fits k)
    (h : StepsTo r n (some t)) : t.Fits k := by
  have hweight := hn.expr
  cases he : n.expr with
  | plain e => simp [stepsTo_of_plain he] at h
  | genericArray c => simp [stepsTo_of_genericArray he] at h
  | parameterized raw args owner =>
    obtain rfl := Option.some.inj ((stepsTo_of_parameterized he _).mp h)
    exact hn.sibling (hr.ofClass raw)
  | wildcard upper lower =>
    obtain ⟨b, hb, rfl⟩ := Option.map_eq_some_iff.mp ((stepsTo_of_wildcard he _).mp h).symm
    exact hn.sibling (Fits.unfolds hr (he ▸ hweight) (.wildcard hb))
  | typeVar v =>
    obtain ⟨bound, hbound, ht⟩ := (stepsTo_of_typeVar he _).mp h
    rcases Option.or_eq_some_iff.mp ht.symm with rfl | ⟨-, ht⟩
    · cases hc : n.context with
      | none => simp [hc, binds_none_iff] at hbound
      | some c => exact hcontext c hc v t ((binds_some_iff ..).mp (hc ▸ hbound))
    · obtain ⟨b, hb, rfl⟩ := Option.map_eq_some_iff.mp ht
      exact hn.sibling (hr.declaredBound hb)

/-- What a node binds a variable to fits where the node does. -/
theorem fits_of_variableIs (hb : r.AcyclicBounds) (hr : r.Fits k) {n : Node} (hn : n.Fits k)
    {v : TypeVarId} {b : Node} (h : VariableIs r (some n) v (some b)) : b.Fits k := by
  induction n using (below_wellFounded hb).induction generalizing v b with
  | _ n ih =>
  have hoption : ∀ m : Option Node, (∀ x ∈ m, Below r x n ∧ x.Fits k) →
      VariableIs r m v (some b) → b.Fits k := by
    intro m hm h
    cases m with
    | none => simp [variableIs_none_iff] at h
    | some m => exact ih m (hm m rfl).1 (hm m rfl).2 h
  cases n with
  | arrayOf n => simp [variableIs_arrayOf_iff] at h
  | applied raw params given =>
    exact FitsGiven.mem hn.2 (mem_given_of_variableIs h)
  | written e c =>
    have hcontext : ∀ x ∈ c, Below r x (written e c) ∧ x.Fits k := by
      rintro x ⟨⟩
      exact ⟨.inl (by simp [depth]), hn.2⟩
    have horElse : ∀ first : Option Node, (∀ x ∈ first, x.Fits k) →
        OrElse (r := r) c v first (some b) → b.Fits k := by
      intro first hfirst h
      cases first with
      | none => exact hoption c hcontext h
      | some found =>
        obtain rfl := Option.some.inj h
        exact hfirst _ rfl
    have hwritten : ∀ u, r.Unfolds e u → Below r (written u c) (written e c) ∧
        (written u c).Fits k := fun u hu =>
      ⟨below_written c hu, hn.sibling (Fits.unfolds hr (by simpa using hn.expr) hu)⟩
    cases e with
    | plain e => exact hoption c hcontext ((variableIs_plain_iff ..).mp h)
    | genericArray t => exact hoption c hcontext ((variableIs_genericArray_iff ..).mp h)
    | typeVar w =>
      obtain ⟨t, ht, h⟩ := (variableIs_typeVar_iff ..).mp h
      obtain ⟨t', ht', hbelow⟩ := exists_stepsTo hb (written (.typeVar w) c)
      obtain rfl := ht.unique ht'
      refine hoption t (fun x hx => ⟨hbelow x hx, ?_⟩) h
      obtain rfl : t = some x := hx
      refine fits_of_stepsTo hr hn (fun c' hc' v b hv => ?_) ht
      exact ih c' (hcontext c' hc').1 (hcontext c' hc').2 hv
    | parameterized raw args owner =>
      rw [variableIs_parameterized_iff] at h
      cases hi : (r.typeParameters raw).idxOf? v with
      | some i =>
        simp only [hi] at h
        obtain ⟨a, ha, rfl⟩ := Option.map_eq_some_iff.mp h.symm
        have hargs := TypeExpr.weight_le_weightAll (List.mem_of_getElem? ha)
        have hweight : (TypeExpr.parameterized raw args owner).weight ≤ k := by
          simpa using hn.expr
        rw [TypeExpr.weight] at hweight
        exact hn.sibling (by omega)
      | none =>
        simp only [hi] at h
        obtain ⟨first, hfirst, h⟩ := h
        refine horElse first ?_ h
        rintro x ⟨⟩
        cases owner with
        | none => simp [variableIs_none_iff] at hfirst
        | some o =>
          obtain ⟨hbelow, hfits⟩ := hwritten o (.owner raw args o)
          exact ih _ hbelow hfits hfirst
    | wildcard upper lower =>
      obtain ⟨first, hfirst, h⟩ := (variableIs_wildcard_iff ..).mp h
      refine horElse first ?_ h
      rintro x ⟨⟩
      cases hbound : r.wildcardBound? upper lower with
      | none => simp [hbound, variableIs_none_iff] at hfirst
      | some bound =>
        obtain ⟨hbelow, hfits⟩ := hwritten bound (.wildcard hbound)
        exact ih _ hbelow hfits (by simpa [hbound] using hfirst)

theorem Fits.stepsTo (hb : r.AcyclicBounds) (hr : r.Fits k) {n t : Node} (hn : n.Fits k)
    (h : StepsTo r n (some t)) : t.Fits k :=
  fits_of_stepsTo hr hn (fun _ hc _ _ hv => fits_of_variableIs hb hr (hn.context hc) hv) h

/-- A walk by single steps keeps within the bound if it does where it stops. -/
theorem fits_of_steps (hb : r.AcyclicBounds) (hr : r.Fits k) {α : Type}
    (found : Node → α → Prop) (good : α → Prop) (stops : Node → Prop)
    (hstop : ∀ n a, n.Fits k → stops n → found n a → good a)
    (hstep : ∀ n a, ¬stops n → found n a → ∃ t, StepsTo r n t ∧
      match t with
      | some t => found t a
      | none => good a) {n : Node} (hn : n.Fits k) {a : α} (h : found n a) : good a := by
  induction n using (below_wellFounded hb).induction with
  | _ n ih =>
  by_cases hs : stops n
  · exact hstop n a hn hs h
  · obtain ⟨t, ht, h⟩ := hstep n a hs h
    cases t with
    | none => exact h
    | some t =>
      obtain ⟨t', ht', hbelow⟩ := exists_stepsTo hb n
      obtain rfl := ht.unique ht'
      exact ih t (hbelow t rfl) (hn.stepsTo hb hr ht) h

theorem fits_of_componentIs (hb : r.AcyclicBounds) (hr : r.Fits k) {n c : Node} (hn : n.Fits k)
    (h : ComponentIs r n (some c)) : c.Fits k := by
  refine fits_of_steps hb hr (ComponentIs r) (fun c => ∀ m ∈ c, m.Fits k)
    (fun n => n.expr.isFinal = true) ?_ ?_ hn h c rfl
  · intro n c hn hfinal h m hm
    obtain rfl : c = some m := hm
    have hweight := hn.expr
    cases n with
    | arrayOf n =>
      obtain rfl := Option.some.inj ((componentIs_arrayOf_iff ..).mp h)
      exact hn.2
    | applied raw params given => simp [Node.expr, TypeExpr.isFinal] at hfinal
    | written e context =>
      rw [expr_written] at hweight hfinal
      cases e with
      | plain e =>
        obtain ⟨e', he', rfl⟩ := Option.map_eq_some_iff.mp ((componentIs_plain_iff ..).mp h).symm
        have hdims := Erasure.toNat_dims_of_component? he'
        rw [TypeExpr.weight] at hweight
        exact hn.sibling (by rw [TypeExpr.weight]; omega)
      | genericArray t =>
        obtain rfl := Option.some.inj ((componentIs_genericArray_iff ..).mp h)
        rw [TypeExpr.weight] at hweight
        exact hn.sibling (by omega)
      | _ => simp [TypeExpr.isFinal] at hfinal
  · intro n c hfinal h
    obtain ⟨t, ht, h⟩ := (componentIs_of_step (by simpa using hfinal) c).mp h
    refine ⟨t, ht, ?_⟩
    cases t with
    | none =>
      obtain rfl : c = none := h
      simp
    | some t => exact h

theorem fits_of_genericsAre (hb : r.AcyclicBounds) (hr : r.Fits k) {n : Node} (hn : n.Fits k)
    {args : List (Option Node)} (h : GenericsAre r n args) : ∀ m, some m ∈ args → m.Fits k := by
  refine fits_of_steps hb hr (GenericsAre r) (fun args => ∀ m, some m ∈ args → m.Fits k)
    (fun n => ∀ e c, n = written e c → e.isClass = true) ?_ ?_ hn h
  · intro n args hn hclass h m hm
    cases n with
    | arrayOf n =>
      obtain rfl := (genericsAre_arrayOf_iff ..).mp h
      simp at hm
    | applied raw params given =>
      obtain rfl := (genericsAre_applied_iff ..).mp h
      exact FitsGiven.mem hn.2 hm
    | written e context =>
      have hclass := hclass e context rfl
      cases e with
      | plain e =>
        obtain rfl := (genericsAre_plain_iff ..).mp h
        obtain ⟨v, -, heq⟩ := List.mem_map.mp hm
        obtain rfl := Option.some.inj heq
        refine fits_written ?_ fun _ hx => Option.some.inj hx ▸ hn
        rw [TypeExpr.weight]
        exact hr.1
      | parameterized raw ts owner =>
        obtain rfl := (genericsAre_parameterized_iff ..).mp h
        obtain ⟨t, ht, heq⟩ := List.mem_map.mp hm
        obtain rfl := Option.some.inj heq
        have hlight := TypeExpr.weight_le_weightAll ht
        have hweight := hn.expr
        rw [expr_written, TypeExpr.weight] at hweight
        exact hn.sibling (by omega)
      | _ => simp [TypeExpr.isClass] at hclass
  · intro n args hstop h
    push Not at hstop
    obtain ⟨e, c, rfl, hclass⟩ := hstop
    obtain ⟨t, ht, h⟩ := (genericsAre_of_step (by simpa using hclass) args).mp h
    refine ⟨t, ht, ?_⟩
    cases t with
    | none =>
      obtain rfl : args = [] := h
      simp
    | some t => exact h

/-- A supertype that fits in the context of a node that does. -/
theorem Fits.supertype (hr : r.Fits k) {n : Node} (hn : n.Fits k) {e : Erasure} {t : TypeExpr}
    (ht : r.IsSupertype e t) : (within (some n) t).Fits k :=
  fits_written (hr.supertype ht) fun _ hx => Option.some.inj hx ▸ hn

theorem fits_of_viewIs (h : r.Acyclic) (hr : r.Fits k) {n : Node} (hn : n.Fits k)
    {target : Erasure} {view : Node} (hview : ViewIs r (some n) target (some view)) :
    view.Fits k :=
  view_induction h.inheritance (Fits k)
    (fun _ _ _ hn _ ht => hn.supertype hr ht) hn hview

/-! ## Bounds -/

mutual

theorem Fits.mono {k l : Nat} (hkl : k ≤ l) : (n : Node) → n.Fits k → n.Fits l
  | written _ none, h => Nat.le_trans h hkl
  | written _ (some c), h => ⟨Nat.le_trans h.1 hkl, Fits.mono hkl c h.2⟩
  | arrayOf n, h => ⟨Nat.le_trans h.1 hkl, Fits.mono hkl n h.2⟩
  | applied _ _ given, h => ⟨Nat.le_trans h.1 hkl, FitsGiven.mono hkl given h.2⟩

theorem FitsGiven.mono {k l : Nat} (hkl : k ≤ l) :
    (given : List (Option Node)) → FitsGiven k given → FitsGiven l given
  | [], _ => trivial
  | none :: rest, h => FitsGiven.mono hkl rest h
  | some n :: rest, h => ⟨Fits.mono hkl n h.1, FitsGiven.mono hkl rest h.2⟩

end

mutual

/-- Every node has a bound. -/
theorem exists_fits : (n : Node) → ∃ k, n.Fits k
  | written e none => ⟨e.weight, Nat.le_refl _⟩
  | written e (some c) =>
    have ⟨k, hk⟩ := exists_fits c
    ⟨max e.weight k, Nat.le_max_left .., Fits.mono (Nat.le_max_right ..) c hk⟩
  | arrayOf n =>
    have ⟨k, hk⟩ := exists_fits n
    ⟨max n.expr.arrayOf.weight k, Nat.le_max_left .., Fits.mono (Nat.le_max_right ..) n hk⟩
  | applied raw params given =>
    have ⟨k, hk⟩ := exists_fitsGiven given
    ⟨max (expr (applied raw params given)).weight k, Nat.le_max_left ..,
      FitsGiven.mono (Nat.le_max_right ..) given hk⟩

theorem exists_fitsGiven : (given : List (Option Node)) → ∃ k, FitsGiven k given
  | [] => ⟨0, trivial⟩
  | none :: rest => exists_fitsGiven rest
  | some n :: rest =>
    have ⟨k, hk⟩ := exists_fits n
    have ⟨l, hl⟩ := exists_fitsGiven rest
    ⟨max k l, Fits.mono (Nat.le_max_left ..) n hk, FitsGiven.mono (Nat.le_max_right ..) rest hl⟩

end

/-- Every registry with two nodes has a bound. -/
theorem exists_common_fits (r : Registry) (n m : Node) : ∃ k, r.Fits k ∧ n.Fits k ∧ m.Fits k := by
  obtain ⟨k, hk⟩ := exists_fits n
  obtain ⟨l, hl⟩ := exists_fits m
  let w := TypeExpr.weightAll r.declaredExprs + 1
  refine ⟨w + max k l, ⟨by omega, fun t ht => ?_⟩, hk.mono ?_, hl.mono ?_⟩
  · have := TypeExpr.weight_le_weightAll ht
    omega
  · omega
  · omega

end Node

end TypeConversion
