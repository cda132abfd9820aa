import TypeConversion.Proofs.Assignable.Written

/-!
# Wildcards as type arguments

A wildcard as a type argument widens what is accepted: an upper bound accepts what is assignable to
it, a lower bound what it is assignable to.  But arrays are looked at before wildcards, and a
wildcard is taken for an array when its bound is one.  So a lower bound that is an array accepts
what an upper one accepts, and outside type arguments an array accepts a wildcard whose bound is an
array.

**Results**

* `wildcards_vary`: what is accepted by and from wildcards with closed bounds;
* `arrayBounds_not_contravariant`: lower bounds that are arrays, and arrays against wildcards.
-/

namespace TypeConversion

namespace Node

open Walk

variable {r : Registry}

/-! ## Nodes that are taken for arrays -/

/-- A node that is an array if a type expression is written as one, and then of the same. -/
structure LooksLike (r : Registry) (n : Node) (t : TypeExpr) : Prop where
  array : ArrayIs r n t.isArray
  component : t.isArray = true → ComponentIs r n (t.component?.map ofExpr)

theorem looksLike_ofExpr {t : TypeExpr} (ht : t.IsClosed) : LooksLike r (ofExpr t) t :=
  ⟨arrayIs_ofExpr ht, componentIs_ofExpr⟩

/-- A wildcard with a single bound looks like its bound. -/
theorem looksLike_of_wildcard {b w : TypeExpr} (hb : b.IsClosed)
    (hw : w = .extending b ∨ w = .superOf b) : LooksLike r (ofExpr w) b := by
  have hstep : StepsTo r (ofExpr w)
      (if b = .ofClass r.wellKnown.object then none else some (ofExpr b)) := by
    rcases hw with rfl | rfl
    all_goals
      refine (stepsTo_of_wildcard (expr_written ..) _).mpr ?_
      simp only [Registry.wildcardBound?, Registry.firstBound?]
      split <;> rfl
  have hfinal : (ofExpr w).expr.isFinal = false := by rcases hw with rfl | rfl <;> rfl
  by_cases hobject : b = .ofClass r.wellKnown.object
  · -- The top class counts as no bound, and is no array.
    rw [if_pos hobject] at hstep
    subst hobject
    exact ⟨(arrayIs_of_step hfinal _).mpr ⟨none, hstep, rfl⟩, fun h => by cases h⟩
  · rw [if_neg hobject] at hstep
    exact ⟨(arrayIs_of_step hfinal _).mpr ⟨_, hstep, arrayIs_ofExpr hb⟩,
      fun h => (componentIs_of_step hfinal _).mpr ⟨_, hstep, componentIs_ofExpr h⟩⟩

/-- What looks like an array is compared by its component, whatever it is. -/
theorem LooksLike.decides_iff {n other : Node} {t u : TypeExpr} (hn : LooksLike r n t)
    (hother : LooksLike r other u) (ht : t.IsClosed) (hu : u.IsClosed) (harray : t.isArray = true)
    (guard : Option Guard) (holds : Bool) :
    (Comparison.mk (some n) (some other) guard).Decides r holds ↔ AssignableIs r t u holds := by
  have hours : ArrayIs r n true := harray ▸ hn.array
  have hours' : ArrayIs r (ofExpr t) true := harray ▸ arrayIs_ofExpr ht
  have htheirs' := arrayIs_ofExpr (r := r) hu
  have htheirs := hother.array
  rw [assignableIs_iff]
  cases hotherArray : u.isArray with
  | true =>
    rw [hotherArray] at htheirs htheirs'
    have hplan : Planned r n other guard _ :=
      .components hours htheirs (hn.component harray) (hother.component hotherArray)
    have hplan' : Planned r (ofExpr t) (ofExpr u) none _ :=
      .components hours' htheirs' (componentIs_ofExpr harray) (componentIs_ofExpr hotherArray)
    rw [hplan.decides_components_iff, hplan'.decides_components_iff]
  | false =>
    rw [hotherArray] at htheirs htheirs'
    have hplan : Planned r n other guard _ := .noArray hours htheirs
    have hplan' : Planned r (ofExpr t) (ofExpr u) none _ := .noArray hours' htheirs'
    rw [hplan.decides_decided_iff, hplan'.decides_decided_iff]

/-! ## Wildcards and their bounds -/

theorem boundsAre_extending (b : TypeExpr) :
    BoundsAre r (ofExpr (.extending b)) (some ⟨.upper, [ofExpr b]⟩) :=
  (wildcardBoundsFrom_of_wildcard (expr_written ..) _).mpr rfl

theorem boundsAre_superOf (b : TypeExpr) :
    BoundsAre r (ofExpr (.superOf b)) (some ⟨.lower, [ofExpr b]⟩) :=
  (wildcardBoundsFrom_of_wildcard (expr_written ..) _).mpr rfl

/-- What is no array accepts a wildcard only if it is one of the same kind. -/
theorem wildcard_refused {n other : Node} {guard : Option Guard} {ours : Option WildcardBounds}
    {theirs : WildcardBounds} (harray : ArrayIs r n false) (hnew : ¬Remembers guard n other)
    (hours : BoundsAre r n ours) (htheirs : BoundsAre r other (some theirs))
    (hkind : ours.map (·.kind) ≠ some theirs.kind) (holds : Bool) :
    (Comparison.mk (some n) (some other) guard).Decides r holds ↔ holds = false := by
  cases ours with
  | none => exact (Planned.theirWildcard harray hnew hours htheirs).decides_decided_iff
  | some ours =>
    have hkind : ours.kind ≠ theirs.kind := by simpa using hkind
    exact (Planned.otherKind harray hnew hours htheirs hkind).decides_decided_iff

/-- A class with a single type argument accepts another by the comparison of the arguments. -/
theorem assignableIs_argument_iff (g : ClassId) (t u : TypeExpr) (holds : Bool) :
    AssignableIs r (.parameterized g [t] none) (.parameterized g [u] none) holds ↔
      (Comparison.mk (some (ofExpr t)) (some (ofExpr u))
        (some [(.parameterized g [t] none, .parameterized g [u] none)])).Decides r holds := by
  have hours : (ofExpr (.parameterized g [t] none)).expr.head? = some (.ofClass g) := rfl
  have htheirs : (ofExpr (.parameterized g [u] none)).expr.head? = some (.ofClass g) := rfl
  have hnew : ¬Remembers none (ofExpr (.parameterized g [t] none))
      (ofExpr (.parameterized g [u] none)) := by simp [Remembers]
  have hmeets := meets_of_head? (r := r) hours hnew (boundsAre_of_head? htheirs)
    (resolvesTo_of_head? htheirs)
  have hplan := Planned.arguments hmeets (admits_self ..) rfl
    ((genericsAre_parameterized_iff ..).mpr rfl)
    ((viewArgumentsAre_iff_of_resolvesTo (resolvesTo_of_head? htheirs) _).mpr
      ((genericsAre_parameterized_iff ..).mpr rfl)) rfl
  rw [assignableIs_iff, Comparison.Decides, Comparison.Decides]
  simp only [hplan.answers_iff]
  exact exists_congr fun after => finds_assignableArgs_singleton_iff ..

/-- A wildcard as an argument accepts what its bound does, or what accepts its bound. -/
theorem assignableIs_wildcard_iff (g : ClassId) {a b w : TypeExpr} (ha : a.IsClosed)
    (hb : b.IsClosed) (hw : w = .extending b ∨ w = .superOf b) {kind : WildcardKind}
    (hbounds : BoundsAre r (ofExpr w) (some ⟨kind, [ofExpr b]⟩)) (holds : Bool) :
    AssignableIs r (.parameterized g [w] none) (.parameterized g [a] none) holds ↔
      if b.isArray then AssignableIs r b a holds
      else (boundComparison kind (ofExpr b) (ofExpr a)).Decides r holds := by
  rw [assignableIs_argument_iff]
  have hlooks := looksLike_of_wildcard (r := r) hb hw
  cases harray : b.isArray with
  | true => exact hlooks.decides_iff (looksLike_ofExpr ha) hb ha harray _ holds
  | false =>
    have hnew : ¬Remembers (some [(.parameterized g [w] none, .parameterized g [a] none)])
        (ofExpr w) (ofExpr a) := by
      rw [remembers_singleton_iff]
      rintro ⟨heq, -⟩
      rcases hw with rfl | rfl <;> cases heq
    have hplan := Planned.ourWildcard (harray ▸ hlooks.array) hnew hbounds (boundsAre_ofExpr ha)
    rw [hplan.decides_bounds_iff]
    exact finds_acceptsAll_singleton_iff ..

/-- Neither the bound of a wildcard nor a wildcard of the other kind accepts it, but for arrays. -/
theorem assignableIs_of_wildcard_iff {a b t w : TypeExpr} (ha : a.IsClosed) (hb : b.IsClosed)
    (h : (t, w) ∈ [(b, .extending a), (.superOf b, .extending a), (b, .superOf a),
      (.extending b, .superOf a)]) (holds : Bool) :
    AssignableIs r t w holds ↔ if b.isArray then AssignableIs r b a holds else holds = false := by
  have hours : LooksLike r (ofExpr t) b ∧ ∃ ours, BoundsAre r (ofExpr t) ours ∧
      ∃ theirs, BoundsAre r (ofExpr w) (some theirs) ∧
        ours.map (·.kind) ≠ some theirs.kind := by
    simp only [List.mem_cons, Prod.mk.injEq, List.not_mem_nil, or_false] at h
    rcases h with ⟨rfl, rfl⟩ | ⟨rfl, rfl⟩ | ⟨rfl, rfl⟩ | ⟨rfl, rfl⟩
    · exact ⟨looksLike_ofExpr hb, none, boundsAre_ofExpr hb, _, boundsAre_extending a, by simp⟩
    · exact ⟨looksLike_of_wildcard hb (.inr rfl), _, boundsAre_superOf b, _,
        boundsAre_extending a, by simp⟩
    · exact ⟨looksLike_ofExpr hb, none, boundsAre_ofExpr hb, _, boundsAre_superOf a, by simp⟩
    · exact ⟨looksLike_of_wildcard hb (.inl rfl), _, boundsAre_extending b, _,
        boundsAre_superOf a, by simp⟩
  have htheirs : LooksLike r (ofExpr w) a := by
    refine looksLike_of_wildcard ha ?_
    simp only [List.mem_cons, Prod.mk.injEq, List.not_mem_nil, or_false] at h
    rcases h with ⟨-, rfl⟩ | ⟨-, rfl⟩ | ⟨-, rfl⟩ | ⟨-, rfl⟩ <;> simp
  obtain ⟨hlooks, ours, hours, theirs, hbounds, hkind⟩ := hours
  cases harray : b.isArray with
  | true =>
    rw [assignableIs_iff]
    exact hlooks.decides_iff htheirs hb ha harray _ holds
  | false =>
    rw [assignableIs_iff]
    exact wildcard_refused (harray ▸ hlooks.array) (by simp [Remembers]) hours hbounds hkind holds

/--
What wildcards accept, and what accepts them, for closed bounds.  An upper bound in a type argument
is covariant.  A lower one is contravariant unless it is an array, and then it is covariant too.
Outside type arguments a wildcard is accepted only by one of its kind, or else by arrays.
-/
theorem wildcards_vary (r : Registry) (g : ClassId) {a b : TypeExpr} (ha : a.IsClosed)
    (hb : b.IsClosed) (holds : Bool) :
    (AssignableIs r (.parameterized g [.extending b] none) (.parameterized g [a] none) holds ↔
      AssignableIs r b a holds) ∧
    (AssignableIs r (.parameterized g [.superOf b] none) (.parameterized g [a] none) holds ↔
      if b.isArray then AssignableIs r b a holds else AssignableIs r a b holds) ∧
    (∀ t w, (t, w) ∈ [(b, .extending a), (.superOf b, .extending a), (b, .superOf a),
        (.extending b, .superOf a)] →
      (AssignableIs r t w holds ↔
        if b.isArray then AssignableIs r b a holds else holds = false)) ∧
    ∀ n other ours theirs, ArrayIs r n false → BoundsAre r n ours →
      BoundsAre r other (some theirs) → ours.map (·.kind) ≠ some theirs.kind →
      (Finds (fun limit => isAssignableFrom limit r r (some n) (some other)) holds ↔
        holds = false) := by
  refine ⟨?_, ?_, fun t w h => assignableIs_of_wildcard_iff ha hb h holds, ?_⟩
  · rw [assignableIs_wildcard_iff g ha hb (.inl rfl) (boundsAre_extending b)]
    cases b.isArray with
    | true => rfl
    | false => exact (assignableIs_iff ..).symm
  · rw [assignableIs_wildcard_iff g ha hb (.inr rfl) (boundsAre_superOf b)]
    cases b.isArray with
    | true => rfl
    | false => exact (assignableIs_iff ..).symm
  · intro n other ours theirs harray hours htheirs hkind
    rw [finds_isAssignableFrom_iff]
    exact wildcard_refused harray (by simp [Remembers]) hours htheirs hkind holds

/-- Lists of what is above arrays of integers do not accept lists of arrays of numbers. -/
theorem wildcards_vary_arrays :
    (let numbers := TypeExpr.arrayOfClass Bootstrap.wellKnown.number
     let integers := TypeExpr.arrayOfClass Bootstrap.wellKnown.integer
     numbers.IsClosed ∧ integers.IsClosed ∧
       AssignableIs Registry.bootstrap (.listOf (.superOf integers)) (.listOf numbers) false) :=
  ⟨trivial, trivial, (wildcards_vary Registry.bootstrap Bootstrap.wellKnown.list
    (a := TypeExpr.arrayOfClass Bootstrap.wellKnown.number)
    (b := TypeExpr.arrayOfClass Bootstrap.wellKnown.integer) trivial trivial false).2.1.mpr
    (.intro 4 (by decide +kernel))⟩

/--
Arrays as lower bounds: lists of what is above arrays of integers refuse lists of arrays of numbers,
lists of what is above arrays of numbers accept lists of arrays of integers, and arrays of strings
accept the wildcard below them.
-/
theorem arrayBounds_not_contravariant :
    (let numbers := TypeExpr.arrayOfClass Bootstrap.wellKnown.number
     let integers := TypeExpr.arrayOfClass Bootstrap.wellKnown.integer
     let strings := TypeExpr.arrayOfClass Bootstrap.wellKnown.string
     let assignable := AssignableIs Registry.bootstrap
     (assignable numbers integers true ∧
       assignable (.listOf (.superOf integers)) (.listOf numbers) false) ∧
     (assignable integers numbers false ∧
       assignable (.listOf (.superOf numbers)) (.listOf integers) true) ∧
     assignable strings (.extending strings) true) :=
  ⟨⟨.intro 9 (by decide +kernel), .intro 9 (by decide +kernel)⟩,
    ⟨.intro 9 (by decide +kernel), .intro 9 (by decide +kernel)⟩, .intro 9 (by decide +kernel)⟩

end Node

end TypeConversion
