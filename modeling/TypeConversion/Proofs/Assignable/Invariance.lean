import TypeConversion.Proofs.Assignable.Written
import TypeConversion.Proofs.Substitution.Denotation
import TypeConversion.Proofs.Substitution.WellFormed

/-!
# Type arguments without wildcards

Inside type arguments erasures have to be the same, and so have the arguments of these in turn.  But
two arrays are compared by a check of their components that starts over at the top, where the first
has only to be a supertype of the second, and the types that enclose inner classes are not compared
at all.  `Agrees` is what is left of equality.

The guard remembers the pairs that were compared together with those that are being compared.  Of
two ground expressions only parts are compared further, so that a pair that is met again was found
to hold before.

**Results**

* `agrees_of_answers`, `answers_of_agrees`: inside type arguments two ground expressions are found
  assignable exactly if they agree;
* `arguments_invariant_iff`: a class with type arguments accepts exactly those that agree with them,
  and these are the same ones where there are no arrays and no enclosing types;
* `arrayArgument_covariant`: lists of arrays of numbers accept lists of arrays of integers.
-/

namespace TypeConversion

namespace TypeExpr

/-- A closed type expression with the right number of arguments everywhere. -/
structure IsGround (r : Registry) (t : TypeExpr) : Prop where
  closed : t.IsClosed
  wellFormed : t.WellFormed r []

section

variable {r : Registry} {t : TypeExpr}

theorem IsGround.argument (h : t.IsGround r) {a : TypeExpr} (ha : a ∈ t.arguments) :
    a.IsGround r := by
  refine ⟨?_, h.wellFormed.argument ha⟩
  cases t with
  | parameterized raw args owner => exact (allClosed_iff _).mp h.closed.1 a ha
  | plain _ | genericArray _ | wildcard _ _ | typeVar _ => simp [arguments] at ha

theorem weight_lt_of_mem_arguments {a : TypeExpr} (ha : a ∈ t.arguments) :
    a.weight < t.weight := by
  cases t with
  | parameterized raw args owner =>
    have := weight_le_weightAll (show a ∈ args from ha)
    rw [weight]
    omega
  | plain _ | genericArray _ | wildcard _ _ | typeVar _ => simp [arguments] at ha

theorem isArray_of_component? {c : TypeExpr} (h : t.component? = some c) : t.isArray = true := by
  cases t with
  | plain e =>
    cases harray : e.isArray with
    | true => exact harray
    | false => simp [component?, Erasure.component?, harray] at h
  | genericArray c => rfl
  | parameterized _ _ _ | wildcard _ _ | typeVar _ => simp [component?] at h

/-- What is written as an array has a component, which is smaller and ground if the array is. -/
theorem exists_component? (h : t.isArray = true) :
    ∃ c, t.component? = some c ∧ c.weight < t.weight ∧ (t.IsGround r → c.IsGround r) := by
  cases t with
  | plain e =>
    have hc : e.component? = some ⟨e.element, e.dims - 1⟩ := by
      have harray : e.isArray = true := h
      simp [Erasure.component?, harray]
    have hdims : (e.dims - 1).toNat + 1 = e.dims.toNat := Erasure.toNat_dims_of_component? hc
    refine ⟨plain ⟨e.element, e.dims - 1⟩, by rw [component?, hc]; rfl, ?_, fun hground => ?_⟩
    · simp only [weight]
      omega
    · exact ⟨by simp [IsClosed], hground.wellFormed⟩
  | genericArray c =>
    exact ⟨c, rfl, by rw [weight]; omega, fun hground => ⟨hground.closed, hground.wellFormed⟩⟩
  | parameterized _ _ _ | wildcard _ _ | typeVar _ => simp [isArray] at h

/-- A closed expression is an array if its erasure is one. -/
theorem IsClosed.isArray_of_erasure? (h : t.IsClosed) {e : Erasure} (he : t.erasure? = some e) :
    t.isArray = e.isArray := by
  cases t with
  | plain a =>
    obtain rfl : a = e := by simpa [erasure?] using he
    rfl
  | parameterized raw args owner =>
    obtain rfl : Erasure.ofClass raw = e := by simpa [erasure?] using he
    rfl
  | genericArray c =>
    obtain ⟨a, -, ha⟩ := Option.bind_eq_some_iff.mp he
    simp [isArray, Erasure.isArray_of_array? ha]
  | wildcard _ _ | typeVar _ => exact h.elim

theorem erasure?_of_head? {e : Erasure} (h : t.head? = some e) : t.erasure? = some e := by
  cases t with
  | plain _ | parameterized _ _ _ => exact h
  | genericArray _ | wildcard _ _ | typeVar _ => simp [head?] at h

end

end TypeExpr

namespace Node

open Walk

variable {r : Registry}

/--
Two type expressions that count as the same inside type arguments: arrays of which the second is
assignable to the first, and classes with the same erasure and agreeing arguments.  An array of too
many dimensions for an erasure has that of the top class.
-/
inductive Agrees (r : Registry) : TypeExpr → TypeExpr → Prop
  | arrays {a b c d : TypeExpr} (ha : a.component? = some c) (hb : b.component? = some d)
      (h : AssignableIs r c d true) : Agrees r a b
  | classes {a b : TypeExpr} {c : ClassId} (ha : a.head? = some (.ofClass c))
      (hb : b.erasure?.getD r.object = .ofClass c)
      (hlength : a.arguments.length = b.arguments.length)
      (hargs : ∀ p ∈ a.arguments.zip b.arguments, Agrees r p.1 p.2) : Agrees r a b

/-! ## The plan for ground expressions -/

/-- The nodes of two type expressions that are compared. -/
def pairOf (p : TypeExpr × TypeExpr) : Option Node × Option Node :=
  (some (ofExpr p.1), some (ofExpr p.2))

/-- What the comparison of two ground expressions inside type arguments comes down to. -/
def groundPlan (r : Registry) (a b : TypeExpr) (guard : Guard) : Plan :=
  if a.isArray then
    if b.isArray then .components (a.component?.map ofExpr) (b.component?.map ofExpr)
    else .decided false
  else if guard.lookup a = some b then .decided true
  else if a.head? ≠ some (b.erasure?.getD r.object) then .decided false
  else if a.arguments.length ≠ b.arguments.length then .decided false
  else .arguments ((a.arguments.zip b.arguments).map pairOf)

theorem zip_map_ofExpr (as bs : List TypeExpr) :
    (as.map fun a => some (ofExpr a)).zip (bs.map fun b => some (ofExpr b)) =
      (as.zip bs).map pairOf := by
  rw [List.zip_map]
  rfl

/-- The arguments that a ground expression has as a class are those written. -/
theorem viewArgumentsAre_ofExpr {b : TypeExpr} (hb : b.IsGround r) {c : ClassId}
    (he : b.erasure?.getD r.object = .ofClass c) :
    ViewArgumentsAre r (ofExpr b) (.ofClass c) (b.arguments.map fun a => some (ofExpr a)) := by
  have hresolves : ResolvesTo r (ofExpr b) b.erasure? := (Denotes.closed hb.closed).resolvesTo
  cases hfound : b.erasure? with
  | some e =>
    rw [hfound] at he hresolves
    obtain rfl : e = .ofClass c := he
    refine (viewArgumentsAre_iff_of_resolvesTo hresolves _).mpr ?_
    have hnoArray : b.isArray = false := by
      rw [hb.closed.isArray_of_erasure? hfound, Erasure.isArray_ofClass]
    obtain ⟨d, hd⟩ := hb.closed.exists_head? hnoArray
    exact genericsAre_ofExpr hd hb.wellFormed.not_isRaw
  | none =>
    -- Only an array of too many dimensions has no erasure, and it has no arguments either.
    cases b with
    | genericArray component =>
      rw [hfound] at hresolves
      refine ⟨some (ofExpr (.genericArray component)), (viewIs_some_iff ..).mpr
        ⟨none, hresolves, rfl⟩, ?_⟩
      refine (genericsAre_of_step rfl _).mpr ⟨none, ?_, rfl⟩
      exact (stepsTo_of_genericArray (expr_written ..) _).mpr rfl
    | plain _ | parameterized _ _ _ => simp [TypeExpr.erasure?] at hfound
    | wildcard _ _ | typeVar _ => exact hb.closed.elim

theorem planned_ground {a b : TypeExpr} (ha : a.IsGround r) (hb : b.IsGround r)
    (guard : Guard) : Planned r (ofExpr a) (ofExpr b) (some guard) (groundPlan r a b guard) := by
  have harray := arrayIs_ofExpr (r := r) ha.closed
  have hother := arrayIs_ofExpr (r := r) hb.closed
  rw [groundPlan]
  by_cases h : a.isArray
  · rw [if_pos h]
    rw [h] at harray
    by_cases h' : b.isArray
    · rw [if_pos h']
      rw [h'] at hother
      exact .components harray hother (componentIs_ofExpr h) (componentIs_ofExpr h')
    · rw [if_neg h']
      exact .noArray harray (by simpa [h'] using hother)
  · rw [if_neg h]
    obtain ⟨c, hc⟩ := ha.closed.exists_head? (by simpa using h)
    by_cases hguard : guard.lookup a = some b
    · rw [if_pos hguard]
      exact .remembered (by simpa [h] using harray) (by simpa [Remembers, ofExpr] using hguard)
    · rw [if_neg hguard]
      have hnew : ¬Remembers (some guard) (ofExpr a) (ofExpr b) := by
        simpa [Remembers, ofExpr] using hguard
      have hmeets := meets_of_head? (r := r) (n := ofExpr a) (by simpa [ofExpr] using hc) hnew
        (boundsAre_ofExpr hb.closed) (Denotes.closed hb.closed).resolvesTo
      rw [hc]
      by_cases he : some (Erasure.ofClass c) = some (b.erasure?.getD r.object)
      · rw [if_neg (not_not.mpr he)]
        have he := (Option.some.inj he).symm
        have hadmits := admits_self r (.ofClass c) true true
        have hours := genericsAre_ofExpr (r := r) hc ha.wellFormed.not_isRaw
        have htheirs := viewArgumentsAre_ofExpr hb he
        rw [he] at hmeets
        by_cases hlength : a.arguments.length = b.arguments.length
        · rw [if_neg (not_not.mpr hlength), ← zip_map_ofExpr]
          exact .arguments hmeets hadmits rfl hours htheirs (by simpa using hlength)
        · rw [if_pos hlength]
          exact .otherLength hmeets hadmits rfl hours htheirs (by simpa using hlength)
      · rw [if_pos he]
        exact .refused hmeets (by simpa [OurSide.admits] using he)

/-! ## What is accepted agrees -/

theorem mem_of_lookup {guard : Guard} {a b : TypeExpr} (h : guard.lookup a = some b) :
    (a, b) ∈ guard := by
  obtain ⟨before, after, rfl, -⟩ := List.lookup_eq_some_iff.mp h
  simp

/-- All pairs of a guard whose first expression is small enough agree. -/
def AgreesUpTo (r : Registry) (k : Nat) (guard : Guard) : Prop :=
  ∀ p ∈ guard, p.1.weight ≤ k → Agrees r p.1 p.2

/-- A guard that was only added pairs to that agree. -/
def GrowsTo (r : Registry) (guard reached : Guard) : Prop :=
  ∀ p ∈ reached, p ∈ guard ∨ Agrees r p.1 p.2

theorem AgreesUpTo.growsTo {k : Nat} {guard reached : Guard} (h : AgreesUpTo r k guard)
    (hgrows : GrowsTo r guard reached) : AgreesUpTo r k reached :=
  fun p hp hweight => (hgrows p hp).elim (fun hp => h p hp hweight) id

theorem GrowsTo.trans {guard next reached : Guard} (h : GrowsTo r guard next)
    (h' : GrowsTo r next reached) : GrowsTo r guard reached :=
  fun p hp => (h' p hp).elim (h p) .inr

/-- Pairs of small arguments that are all found assignable agree. -/
theorem agrees_of_passes {k : Nat} {pairs : List (TypeExpr × TypeExpr)}
    (hpair : ∀ p ∈ pairs, ∀ guard after, AgreesUpTo r k guard →
      (Comparison.mk (pairOf p).1 (pairOf p).2 (some guard)).Answers r true after →
      Agrees r p.1 p.2 ∧ ∃ reached, after = some reached ∧ GrowsTo r guard reached)
    {guard : Guard} {after : Option Guard} (hguard : AgreesUpTo r k guard)
    (h : Passes r (pairs.map pairOf) (some guard) after) :
    (∀ p ∈ pairs, Agrees r p.1 p.2) ∧
      ∃ reached, after = some reached ∧ GrowsTo r guard reached := by
  induction pairs generalizing guard with
  | nil =>
    obtain ⟨-, rfl⟩ := Prod.mk.inj ((finds_assignableArgs_nil_iff ..).mp h)
    exact ⟨by simp, guard, rfl, fun p hp => .inl hp⟩
  | cons p rest ih =>
    obtain ⟨next, hfirst, hrest⟩ := (passes_cons_iff ..).mp h
    obtain ⟨hp, next, rfl, hnext⟩ := hpair p List.mem_cons_self guard _ hguard hfirst
    obtain ⟨hall, reached, rfl, hreached⟩ :=
      ih (fun q hq => hpair q (List.mem_cons_of_mem p hq)) (hguard.growsTo hnext) hrest
    exact ⟨List.forall_mem_cons.mpr ⟨hp, hall⟩, reached, rfl, hnext.trans hreached⟩

/--
Arguments that are found assignable while the expressions themselves are being compared agree.  The
expressions are larger than their arguments, so that nothing need be known of this pair.
-/
theorem agrees_of_passes_arguments {a b : TypeExpr}
    (hpart : ∀ x ∈ a.arguments, ∀ y ∈ b.arguments, ∀ guard after,
      AgreesUpTo r x.weight guard →
      (Comparison.mk (some (ofExpr x)) (some (ofExpr y)) (some guard)).Answers r true after →
      Agrees r x y ∧ ∃ reached, after = some reached ∧ GrowsTo r guard reached)
    {guard : Guard} (hguard : AgreesUpTo r a.weight guard) {after : Option Guard}
    (h : Passes r ((a.arguments.zip b.arguments).map pairOf) (some ((a, b) :: guard)) after) :
    (∀ p ∈ a.arguments.zip b.arguments, Agrees r p.1 p.2) ∧
      ∃ reached, after = some reached ∧ GrowsTo r ((a, b) :: guard) reached := by
  have hinner : AgreesUpTo r (a.weight - 1) ((a, b) :: guard) := by
    intro p hp hweight
    have := a.weight_pos
    rcases List.mem_cons.mp hp with rfl | hp
    · simp only at hweight
      omega
    · exact hguard p hp (by omega)
  refine agrees_of_passes (fun p hp guard after hguard hanswers => ?_) hinner h
  obtain ⟨hx, hy⟩ := List.of_mem_zip hp
  have hlt := TypeExpr.weight_lt_of_mem_arguments hx
  exact hpart p.1 hx p.2 hy guard after (fun q hq hweight => hguard q hq (by omega)) hanswers

/--
Ground expressions that are found assignable inside type arguments agree, if the smaller pairs met
before do.
-/
theorem agrees_of_answers {a b : TypeExpr} (ha : a.IsGround r) (hb : b.IsGround r)
    {guard : Guard} {after : Option Guard} (hguard : AgreesUpTo r a.weight guard)
    (h : (Comparison.mk (some (ofExpr a)) (some (ofExpr b)) (some guard)).Answers r true after) :
    Agrees r a b ∧ ∃ reached, after = some reached ∧ GrowsTo r guard reached := by
  induction hw : a.weight using Nat.strong_induction_on generalizing a b guard after with
  | _ w ih =>
  subst hw
  have hsame : GrowsTo r guard guard := fun p hp => .inl hp
  have hplan := planned_ground ha hb guard
  rw [groundPlan] at hplan
  split at hplan
  · rename_i harray
    split at hplan
    · rename_i harray'
      obtain ⟨hcomponents, rfl⟩ :=
        (finds_carryOut_components_iff ..).mp ((hplan.answers_iff _).mp h)
      obtain ⟨c, hc, -⟩ := TypeExpr.exists_component? (r := r) harray
      obtain ⟨d, hd, -⟩ := TypeExpr.exists_component? (r := r) harray'
      rw [hc, hd] at hcomponents
      exact ⟨.arrays hc hd ((assignableIs_iff ..).mpr hcomponents), guard, rfl, hsame⟩
    · exact (hplan.not_answers_true after h).elim
  · rename_i harray
    split at hplan
    · rename_i hlookup
      obtain ⟨-, rfl⟩ := (finds_carryOut_decided_iff ..).mp ((hplan.answers_iff _).mp h)
      have hmem : (a, b) ∈ guard := mem_of_lookup hlookup
      exact ⟨hguard (a, b) hmem le_rfl, guard, rfl, hsame⟩
    · split at hplan
      · exact (hplan.not_answers_true after h).elim
      · rename_i he
        split at hplan
        · exact (hplan.not_answers_true after h).elim
        · rename_i hlength
          obtain ⟨c, hc⟩ := ha.closed.exists_head? (by simpa using harray)
          have he : b.erasure?.getD r.object = .ofClass c := by
            rw [not_not, hc] at he
            exact (Option.some.inj he).symm
          have hpart : ∀ x ∈ a.arguments, ∀ y ∈ b.arguments, ∀ guard after,
              AgreesUpTo r x.weight guard →
              (Comparison.mk (some (ofExpr x)) (some (ofExpr y)) (some guard)).Answers r true
                after →
              Agrees r x y ∧ ∃ reached, after = some reached ∧ GrowsTo r guard reached :=
            fun x hx y hy guard after hguard hanswers =>
              ih x.weight (TypeExpr.weight_lt_of_mem_arguments hx) (ha.argument hx)
                (hb.argument hy) hguard hanswers rfl
          obtain ⟨hall, reached, rfl, hreached⟩ :=
            agrees_of_passes_arguments hpart hguard ((hplan.answers_iff _).mp h)
          have hagrees : Agrees r a b := .classes hc he (not_not.mp hlength) hall
          refine ⟨hagrees, reached, rfl, fun p hp => ?_⟩
          rcases hreached p hp with hp | hp
          · rcases List.mem_cons.mp hp with rfl | hp
            · exact .inr hagrees
            · exact .inl hp
          · exact .inr hp

/-! ## What agrees is accepted -/

/-- Ground expressions that agree are found assignable inside type arguments. -/
theorem answers_of_agrees {a b : TypeExpr} (h : Agrees r a b) (ha : a.IsGround r)
    (hb : b.IsGround r) (guard : Guard) : ∃ after,
      (Comparison.mk (some (ofExpr a)) (some (ofExpr b)) (some guard)).Answers r true after := by
  induction h generalizing guard with
  | @arrays a b c d hc hd h =>
    have hplan := planned_ground ha hb guard
    have harray := TypeExpr.isArray_of_component? hc
    have harray' := TypeExpr.isArray_of_component? hd
    rw [groundPlan, if_pos harray, if_pos harray', hc, hd] at hplan
    refine ⟨some guard, (hplan.answers_iff _).mpr ?_⟩
    refine (finds_carryOut_components_iff ..).mpr ⟨?_, rfl⟩
    exact (assignableIs_iff ..).mp h
  | @classes a b c hc he hlength _ ih =>
    have hplan := planned_ground ha hb guard
    have harray : ¬a.isArray := by
      rw [ha.closed.isArray_of_erasure? (TypeExpr.erasure?_of_head? hc), Erasure.isArray_ofClass]
      simp
    have he' : ¬a.head? ≠ some (b.erasure?.getD r.object) := by rw [hc, he, not_not]
    rw [groundPlan, if_neg harray] at hplan
    by_cases hlookup : guard.lookup a = some b
    · rw [if_pos hlookup] at hplan
      exact ⟨some guard, (hplan.answers_iff _).mpr ((finds_carryOut_decided_iff ..).mpr ⟨rfl, rfl⟩)⟩
    · rw [if_neg hlookup, if_neg he', if_neg (not_not.mpr hlength)] at hplan
      have hpair : ∀ p ∈ (a.arguments.zip b.arguments).map pairOf, ∀ guard : Guard, ∃ after,
          (Comparison.mk p.1 p.2 (some guard)).Answers r true after :=
        List.forall_mem_map.mpr fun p hp guard => by
          obtain ⟨hx, hy⟩ := List.of_mem_zip hp
          exact ih p hp (ha.argument hx) (hb.argument hy) guard
      obtain ⟨after, hpasses⟩ := exists_passes hpair ((a, b) :: guard)
      exact ⟨after, (hplan.answers_iff _).mpr hpasses⟩

/-! ## At the top -/

section

variable {a b : TypeExpr} {c : ClassId}

/-- The plan for two expressions that name the same class, by themselves. -/
theorem planned_sameClass (ha : a.head? = some (.ofClass c)) (hb : b.head? = some (.ofClass c))
    (hra : ¬a.IsRaw r) (hrb : ¬b.IsRaw r) :
    Planned r (ofExpr a) (ofExpr b) none
      (if a.arguments.length = b.arguments.length then
        .arguments ((a.arguments.zip b.arguments).map pairOf) else .decided false) := by
  have ha' : (ofExpr a).expr.head? = some (.ofClass c) := by simpa [ofExpr] using ha
  have hb' : (ofExpr b).expr.head? = some (.ofClass c) := by simpa [ofExpr] using hb
  have hnew : ¬Remembers none (ofExpr a) (ofExpr b) := by simp [Remembers]
  have hmeets := meets_of_head? (r := r) ha' hnew (boundsAre_of_head? hb') (resolvesTo_of_head? hb')
  have hadmits := admits_self r (.ofClass c) false true
  have hours := genericsAre_ofExpr (r := r) ha hra
  have htheirs := (viewArgumentsAre_iff_of_resolvesTo (resolvesTo_of_head? hb') _).mpr
    (genericsAre_ofExpr (r := r) hb hrb)
  by_cases hlength : a.arguments.length = b.arguments.length
  · rw [if_pos hlength, ← zip_map_ofExpr]
    exact .arguments hmeets hadmits rfl hours htheirs (by simpa using hlength)
  · rw [if_neg hlength]
    exact .otherLength hmeets hadmits rfl hours htheirs (by simpa using hlength)

/-- Of two expressions that name the same class one accepts the other if the arguments agree. -/
theorem assignableIs_sameClass_iff (ha : a.head? = some (.ofClass c))
    (hb : b.head? = some (.ofClass c)) (hra : ¬a.IsRaw r) (hrb : ¬b.IsRaw r)
    (hga : ∀ x ∈ a.arguments, x.IsGround r) (hgb : ∀ y ∈ b.arguments, y.IsGround r) :
    AssignableIs r a b true ↔ List.Forall₂ (Agrees r) a.arguments b.arguments := by
  have hplan := planned_sameClass ha hb hra hrb
  rw [assignableIs_iff, Comparison.Decides, List.forall₂_iff_zip]
  simp only [hplan.answers_iff]
  by_cases hlength : a.arguments.length = b.arguments.length
  · simp only [hlength, if_true, true_and]
    constructor
    · rintro ⟨after, hpasses⟩
      have hnone : AgreesUpTo r a.weight [] := by simp [AgreesUpTo]
      obtain ⟨hall, -⟩ := agrees_of_passes_arguments (fun x hx y hy guard after hguard hanswers =>
        agrees_of_answers (hga x hx) (hgb y hy) hguard hanswers) hnone hpasses
      exact fun {x y} hp => hall (x, y) hp
    · intro hall
      have hpair : ∀ p ∈ (a.arguments.zip b.arguments).map pairOf, ∀ guard : Guard, ∃ after,
          (Comparison.mk p.1 p.2 (some guard)).Answers r true after :=
        List.forall_mem_map.mpr fun p hp guard => by
          obtain ⟨hx, hy⟩ := List.of_mem_zip hp
          exact answers_of_agrees (hall hp) (hga _ hx) (hgb _ hy) guard
      exact exists_passes hpair [(a, b)]
  · simp only [hlength, if_false, finds_carryOut_decided_iff, false_and]
    simp

end

/-- A ground expression agrees with itself and is assignable from itself. -/
theorem agrees_self {a : TypeExpr} (ha : a.IsGround r) :
    Agrees r a a ∧ AssignableIs r a a true := by
  induction hw : a.weight using Nat.strong_induction_on generalizing a with
  | _ w ih =>
  subst hw
  cases harray : a.isArray with
  | true =>
    obtain ⟨c, hc, hlt, hground⟩ := TypeExpr.exists_component? (r := r) harray
    obtain ⟨-, hself⟩ := ih c.weight hlt (hground ha) rfl
    refine ⟨.arrays hc hc hself, (assignableIs_iff ..).mpr ?_⟩
    have hnode : ArrayIs r (ofExpr a) true := harray ▸ arrayIs_ofExpr ha.closed
    have hplan : Planned r (ofExpr a) (ofExpr a) none _ :=
      .components hnode hnode (componentIs_ofExpr harray) (componentIs_ofExpr harray)
    rw [hplan.decides_components_iff, hc]
    exact (assignableIs_iff ..).mp hself
  | false =>
    obtain ⟨c, hc⟩ := ha.closed.exists_head? harray
    have hraw := ha.wellFormed.not_isRaw
    have hargs : List.Forall₂ (Agrees r) a.arguments a.arguments :=
      List.forall₂_same.mpr fun x hx =>
        (ih x.weight (TypeExpr.weight_lt_of_mem_arguments hx) (ha.argument hx) rfl).1
    have he : a.erasure?.getD r.object = .ofClass c := by rw [TypeExpr.erasure?_of_head? hc]; rfl
    refine ⟨.classes hc he rfl fun p hp => (List.forall₂_iff_zip.mp hargs).2 hp, ?_⟩
    exact (assignableIs_sameClass_iff hc hc hraw hraw (fun _ => ha.argument)
      fun _ => ha.argument).mpr hargs

/-! ## Without arrays -/

/-- A type expression built from classes that lie in no enclosing types and are no arrays. -/
inductive IsSimple : TypeExpr → Prop
  | ofClass (c : ClassId) : IsSimple (.ofClass c)
  | parameterized {raw : ClassId} {args : List TypeExpr} (hargs : args ≠ [])
      (h : ∀ a ∈ args, IsSimple a) : IsSimple (.parameterized raw args none)

theorem IsSimple.argument {t a : TypeExpr} (h : IsSimple t) (ha : a ∈ t.arguments) :
    IsSimple a := by
  cases h with
  | ofClass c => simp [TypeExpr.arguments, TypeExpr.ofClass] at ha
  | parameterized _ h => exact h a ha

theorem IsSimple.isArray {t : TypeExpr} (h : IsSimple t) : t.isArray = false := by
  cases h <;> rfl

theorem AssignableIs.unique {a b : TypeExpr} {holds holds' : Bool} (h : AssignableIs r a b holds)
    (h' : AssignableIs r a b holds') : holds = holds' := by
  rw [assignableIs_iff] at h h'
  obtain ⟨after, h⟩ := h
  obtain ⟨after', h'⟩ := h'
  exact (h.unique h').1

/-- Simple expressions that agree are the same. -/
theorem eq_of_agrees {a b : TypeExpr} (h : Agrees r a b) (ha : IsSimple a) (hb : IsSimple b) :
    a = b := by
  induction h with
  | arrays hc _ _ =>
    have harray := ha.isArray
    simp [TypeExpr.isArray_of_component? hc] at harray
  | @classes a b c hc he hlength _ ih =>
    have hargs : a.arguments = b.arguments := by
      refine List.forall₂_eq_eq_eq ▸ List.forall₂_iff_zip.mpr ⟨hlength, fun {x y} hp => ?_⟩
      obtain ⟨hx, hy⟩ := List.of_mem_zip hp
      exact ih (x, y) hp (ha.argument hx) (hb.argument hy)
    cases ha with
    | ofClass a =>
      cases hb with
      | ofClass b =>
        have ha : Erasure.ofClass a = .ofClass c := Option.some.inj hc
        have hb : Erasure.ofClass b = .ofClass c := he
        exact congrArg TypeExpr.plain (ha.trans hb.symm)
      | parameterized hne _ => exact (hne hargs.symm).elim
    | @parameterized raw args hne _ =>
      cases hb with
      | ofClass b => exact (hne hargs).elim
      | @parameterized raw' args' _ _ =>
        have ha : Erasure.ofClass raw = .ofClass c := Option.some.inj hc
        have hb : Erasure.ofClass raw' = .ofClass c := he
        obtain rfl : raw = raw' := congrArg Erasure.element (ha.trans hb.symm)
        obtain rfl : args = args' := hargs
        rfl

/-- The checks of pairs that end under every guard end one after the other. -/
theorem exists_assignableArgs_pairs {pairs : List (TypeExpr × TypeExpr)} {guard : Guard}
    (hpair : ∀ p ∈ pairs, ∀ guard,
      (Comparison.mk (pairOf p).1 (pairOf p).2 (some guard)).Ends r) :
    ∃ answer, Finds (fun limit => assignableArgs limit r r (pairs.map pairOf) (some guard))
      answer := by
  refine exists_assignableArgs fun before arg otherArg after reached heq hbefore => ?_
  have hmem : (arg, otherArg) ∈ pairs.map pairOf := by simp [heq]
  obtain ⟨p, hp, hpair'⟩ := List.mem_map.mp hmem
  obtain ⟨reached, rfl⟩ := hbefore.exists_guard
  obtain ⟨rfl, rfl⟩ := Prod.mk.inj hpair'
  exact hpair p hp reached

/-- Inside type arguments the check of a simple expression always ends. -/
theorem IsSimple.ends {a b : TypeExpr} (hsimple : IsSimple a) (ha : a.IsGround r)
    (hb : b.IsGround r) (guard : Guard) :
    (Comparison.mk (some (ofExpr a)) (some (ofExpr b)) (some guard)).Ends r := by
  induction hw : a.weight using Nat.strong_induction_on generalizing a b guard with
  | _ w ih =>
  subst hw
  have hcarry : ∃ answer, Finds (fun limit => carryOut r r limit (ofExpr a) (ofExpr b)
      (some guard) (groundPlan r a b guard)) answer := by
    rw [groundPlan, if_neg (by simp [hsimple.isArray])]
    split
    · exact ⟨_, finds_const_iff.mpr rfl⟩
    · split
      · exact ⟨_, finds_const_iff.mpr rfl⟩
      · split
        · exact ⟨_, finds_const_iff.mpr rfl⟩
        · refine exists_assignableArgs_pairs fun p hp guard => ?_
          obtain ⟨hx, hy⟩ := List.of_mem_zip hp
          exact ih _ (TypeExpr.weight_lt_of_mem_arguments hx) (hsimple.argument hx)
            (ha.argument hx) (hb.argument hy) guard rfl
  obtain ⟨⟨holds, after⟩, hanswer⟩ := hcarry
  obtain ⟨limit, hlimit⟩ := ((planned_ground ha hb guard).answers_iff after).mpr hanswer
  exact ⟨limit, Option.isSome_iff_exists.mpr ⟨_, hlimit⟩⟩

/--
What a class with ground type arguments accepts among the same class with others.  The arguments
have to agree: equal erasures with agreeing arguments, and for two arrays only the assignability of
the components.  The check ends, and asks for the same arguments, where there are no arrays, no
enclosing types and no empty lists of arguments.
-/
theorem arguments_invariant_iff (r : Registry) (g : ClassId) {as bs : List TypeExpr}
    (has : ∀ a ∈ as, a.IsGround r) (hbs : ∀ b ∈ bs, b.IsGround r) :
    (AssignableIs r (.parameterized g as none) (.parameterized g bs none) true ↔
      List.Forall₂ (Agrees r) as bs) ∧
    AssignableIs r (.parameterized g as none) (.parameterized g as none) true ∧
    ((∀ a ∈ as, IsSimple a) → (∀ b ∈ bs, IsSimple b) →
      AssignableIs r (.parameterized g as none) (.parameterized g bs none) (as = bs)) := by
  have hiff : ∀ {as bs : List TypeExpr}, (∀ a ∈ as, a.IsGround r) → (∀ b ∈ bs, b.IsGround r) →
      (AssignableIs r (.parameterized g as none) (.parameterized g bs none) true ↔
        List.Forall₂ (Agrees r) as bs) :=
    fun has hbs => assignableIs_sameClass_iff (c := g) rfl rfl id id has hbs
  refine ⟨hiff has hbs, (hiff has has).mpr ?_, fun hsimple hsimple' => ?_⟩
  · exact List.forall₂_same.mpr fun a ha => (agrees_self (has a ha)).1
  · have hends : ∃ holds,
        AssignableIs r (.parameterized g as none) (.parameterized g bs none) holds := by
      have hplan := planned_sameClass (r := r) (a := .parameterized g as none)
        (b := .parameterized g bs none) (c := g) rfl rfl id id
      simp only [assignableIs_iff, Comparison.Decides, hplan.answers_iff]
      split
      · have hpair : ∀ p ∈ as.zip bs, ∀ guard,
            (Comparison.mk (pairOf p).1 (pairOf p).2 (some guard)).Ends r := by
          intro p hp guard
          obtain ⟨hx, hy⟩ := List.of_mem_zip hp
          exact (hsimple _ hx).ends (has _ hx) (hbs _ hy) guard
        obtain ⟨⟨holds, after⟩, hanswer⟩ := exists_assignableArgs_pairs hpair
        exact ⟨holds, after, hanswer⟩
      · exact ⟨false, none, finds_const_iff.mpr rfl⟩
    obtain ⟨holds, h⟩ := hends
    have hsame : holds = true ↔ as = bs := by
      constructor
      · rintro rfl
        have hall := (hiff has hbs).mp h
        refine List.forall₂_eq_eq_eq ▸ List.forall₂_iff_zip.mpr ⟨hall.length_eq, fun {x y} hp => ?_⟩
        obtain ⟨hx, hy⟩ := List.of_mem_zip hp
        exact eq_of_agrees ((List.forall₂_iff_zip.mp hall).2 hp) (hsimple x hx) (hsimple' y hy)
      · rintro rfl
        have htrue := (hiff has has).mpr
          (List.forall₂_same.mpr fun a ha => (agrees_self (has a ha)).1)
        exact AssignableIs.unique h htrue
    rwa [show decide (as = bs) = holds by rw [Bool.eq_iff_iff, decide_eq_true_iff, hsame]]

/-- Arrays of numbers and of integers agree, but not numbers and integers. -/
theorem arguments_invariant_numbers :
    (let number := TypeExpr.ofClass Bootstrap.wellKnown.number
     let integer := TypeExpr.ofClass Bootstrap.wellKnown.integer
     let r := Registry.bootstrap
     (number.arrayOf.IsGround r ∧ integer.arrayOf.IsGround r ∧
       List.Forall₂ (Agrees r) [number.arrayOf] [integer.arrayOf]) ∧
     (number.IsGround r ∧ integer.IsGround r ∧
       AssignableIs r (.listOf number) (.listOf integer) false)) := by
  have hground : ∀ c ∈ [Bootstrap.wellKnown.number, Bootstrap.wellKnown.integer],
      (TypeExpr.ofClass c).arrayOf.IsGround Registry.bootstrap ∧
        (TypeExpr.ofClass c).IsGround Registry.bootstrap := by
    intro c hc
    have hparams : Registry.bootstrap.typeParameters c = [] := by
      revert c
      decide +kernel
    exact ⟨⟨trivial, hparams⟩, trivial, hparams⟩
  obtain ⟨hnumbers, hnumber⟩ := hground Bootstrap.wellKnown.number (by simp)
  obtain ⟨hintegers, hinteger⟩ := hground Bootstrap.wellKnown.integer (by simp)
  refine ⟨⟨hnumbers, hintegers, ?_⟩, hnumber, hinteger, ?_⟩
  · exact (arguments_invariant_iff Registry.bootstrap Bootstrap.wellKnown.list
      (List.forall_mem_singleton.mpr hnumbers) (List.forall_mem_singleton.mpr hintegers)).1.mp
      (.intro 9 (by decide +kernel))
  · exact (arguments_invariant_iff Registry.bootstrap Bootstrap.wellKnown.list
      (List.forall_mem_singleton.mpr hnumber) (List.forall_mem_singleton.mpr hinteger)).2.2
      (List.forall_mem_singleton.mpr (.ofClass _)) (List.forall_mem_singleton.mpr (.ofClass _))

/-- Lists of arrays of numbers accept lists of arrays of integers, which are not the same. -/
theorem arrayArgument_covariant :
    TypeExpr.arrayOfClass Bootstrap.wellKnown.number ≠
      .arrayOfClass Bootstrap.wellKnown.integer ∧
    AssignableIs Registry.bootstrap (.listOf (.arrayOfClass Bootstrap.wellKnown.number))
      (.listOf (.arrayOfClass Bootstrap.wellKnown.integer)) true :=
  ⟨by decide, .intro 9 (by decide +kernel)⟩

end Node

end TypeConversion
