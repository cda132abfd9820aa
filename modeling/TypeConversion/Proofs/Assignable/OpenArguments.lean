import TypeConversion.Proofs.Assignable.Interchange
import TypeConversion.Proofs.Assignable.Representation
import TypeConversion.Proofs.Assignable.Views

/-!
# A class with all arguments left open

A class may be applied to missing nodes, which leave its parameters open.  In lookups of variables
and in views such a class is the same as the class without arguments: neither binds anything, so
that their supertypes can take each other's place.  But as type arguments the missing nodes are
compared like all others, and nothing is assignable to a missing node or from one.

So a class whose arguments are all missing accepts nothing.  It is accepted as the class without
arguments is, as long as its own arguments are not looked at: by a node that `Faces` the class
itself it is refused.

**Results**

* `Holds.interchange`: what holds of nodes holds of those that can take their place;
* `not_decides_allOpen`: nothing is assignable to a class whose arguments are all missing;
* `allOpen_agrees_iff`: where it acts as the class without arguments.
-/

namespace TypeConversion

namespace Node

open Walk

variable {r : Registry}

/-! ## What holds of nodes that can take each other's place -/

theorem Planned.interchange {n n' other other' : Node} {guard : Option Guard} {p : Plan}
    (h : Planned r n other guard p) (hn : Interchange r n n')
    (hother : Interchange r other other') :
    ∃ p', Planned r n' other' guard p' ∧ PlansAlike r r p p' := by
  obtain ⟨p', hplan, hp⟩ := Finds.exists_rel (fun limit => plan_rel hn hother limit guard) h.planIs
  exact ⟨p', planned_of_planIs hplan, hp⟩

theorem Holds.interchange {inside : Bool} {n n' other other' : Option Node}
    (h : Holds r inside n other) (hn : InterchangeOption r n n')
    (hother : InterchangeOption r other other') : Holds r inside n' other' := by
  induction h generalizing n' other' with
  | decided hplan =>
    cases hn with
    | some hn =>
      cases hother with
      | some hother =>
        obtain ⟨_, hplan', hp⟩ := hplan.interchange hn hother
        cases hp
        exact .decided hplan'
  | components hplan _ ih =>
    cases hn with
    | some hn =>
      cases hother with
      | some hother =>
        obtain ⟨_, hplan', hp⟩ := hplan.interchange hn hother
        cases hp with
        | components hc hd => exact .components hplan' (ih hc hd)
  | @bounds inside _ _ kind bounds types hplan _ ih =>
    cases hn with
    | some hn =>
      cases hother with
      | some hother =>
        obtain ⟨_, hplan', hp⟩ := hplan.interchange hn hother
        cases hp with
        | bounds _ hbounds htypes =>
          refine .bounds hplan' fun b' hb' t' ht' => ?_
          obtain ⟨b, hb, hrel⟩ := exists_mem_of_forall₂ hbounds hb'
          obtain ⟨t, ht, hrel'⟩ := exists_mem_of_forall₂ htypes ht'
          cases kind with
          | upper => exact ih b hb t ht (.some hrel) (.some hrel')
          | lower => exact ih b hb t ht (.some hrel') (.some hrel)
  | arguments hplan _ ih =>
    cases hn with
    | some hn =>
      cases hother with
      | some hother =>
        obtain ⟨_, hplan', hp⟩ := hplan.interchange hn hother
        cases hp with
        | arguments hpairs =>
          refine .arguments hplan' fun p' hp' => ?_
          obtain ⟨p, hp, hrel⟩ := exists_mem_of_forall₂ hpairs hp'
          exact ih p hp hrel.ours hrel.theirs

/-! ## Classes that bind nothing -/

/-- A node of a class that has no context and binds no variable. -/
structure IsOpenClass (r : Registry) (c : ClassId) (n : Node) : Prop where
  head : n.expr.head? = some (.ofClass c)
  context : n.context = none
  unbound : ∀ limit v, resolveVariable r (limit + 1) n v = some none

/-- A class applied to missing nodes. -/
def allOpen (r : Registry) (c : ClassId) : Node :=
  applied c (r.typeParameters c) (List.replicate (r.typeParameters c).length none)

theorem isOpenClass_ofClass (c : ClassId) : IsOpenClass r c (ofClass c) where
  head := rfl
  context := rfl
  unbound limit v := by simp [ofClass, ofExpr, TypeExpr.ofClass, resolveVariable, resolveInContext]

theorem isOpenClass_allOpen (c : ClassId) : IsOpenClass r c (allOpen r c) where
  head := by simp [allOpen, expr, TypeExpr.head?]
  context := rfl
  unbound limit v := by
    have hmissing : ∀ i : Nat,
        (List.replicate (r.typeParameters c).length (none : Option Node))[i]?.join = none := by
      intro i
      rw [List.getElem?_replicate]
      split <;> rfl
    simp [allOpen, resolveVariable, hmissing]

section

variable {c : ClassId} {s s' : Node}

/-- What is read in classes that bind nothing is read alike. -/
theorem IsOpenClass.contextsAlike (h : IsOpenClass r c s) (h' : IsOpenClass r c s') :
    ContextsAlike r (some s) (some s') := by
  refine fun e => .bindAlike (fun limit v => ?_) e
  cases limit with
  | zero => rfl
  | succ limit => rw [h.unbound, h'.unbound]

theorem IsOpenClass.resolvesTo (h : IsOpenClass r c s) : ResolvesTo r s (some (.ofClass c)) :=
  resolvesTo_of_head? h.head

theorem IsOpenClass.noArray (h : IsOpenClass r c s) : ArrayIs r s false :=
  arrayIs_of_head? h.head

theorem IsOpenClass.noBounds (h : IsOpenClass r c s) : BoundsAre r s none :=
  boundsAre_of_head? h.head

theorem IsOpenClass.binds (h : IsOpenClass r c s) (v : TypeVarId) : Binds r s.context v none := by
  rw [h.context]
  exact (binds_none_iff v none).mpr rfl

/-- As one of its supertypes a class that binds nothing is the same as any other one. -/
theorem IsOpenClass.viewIs (h : IsOpenClass r c s) (h' : IsOpenClass r c s') {target : Erasure}
    (hne : target ≠ .ofClass c) {view : Option Node} (hview : ViewIs r (some s) target view) :
    ∃ view', ViewIs r (some s') target view' ∧ InterchangeOption r view view' := by
  have hread := h.contextsAlike h'
  obtain ⟨first, hfirst, hrest⟩ := (viewIs_iff_of_ne h.resolvesTo hne.symm view).mp hview
  have hnodes : List.Forall₂ (Interchange r) (interfaceNodes r s (.ofClass c))
      (interfaceNodes r s' (.ofClass c)) :=
    List.forall₂_map_left_iff.mpr (List.forall₂_map_right_iff.mpr
      (List.forall₂_same.mpr fun t _ => hread t))
  have hsuper : InterchangeOption r (superNode? r s (.ofClass c))
      (superNode? r s' (.ofClass c)) := by
    rw [superNode?, superNode?]
    cases r.genericSuperclass (.ofClass c) with
    | none => exact .none
    | some t => exact .some (hread t)
  obtain ⟨first', hfirst', hrel⟩ :=
    Finds.exists_rel (fun limit => (viewing_rel limit target).2 _ _ hnodes) hfirst
  cases hrel with
  | some hrel =>
    obtain rfl := hrest
    exact ⟨_, (viewIs_iff_of_ne h'.resolvesTo hne.symm _).mpr ⟨_, hfirst', rfl⟩, .some hrel⟩
  | none =>
    obtain ⟨view', hview', hrel⟩ :=
      Finds.exists_rel (fun limit => asErasure_rel limit target hsuper) hrest
    exact ⟨view', (viewIs_iff_of_ne h'.resolvesTo hne.symm _).mpr ⟨_, hfirst', hview'⟩, hrel⟩

theorem IsOpenClass.viewArgumentsAre (h : IsOpenClass r c s) (h' : IsOpenClass r c s')
    {target : Erasure} (hne : target ≠ .ofClass c) {args : List (Option Node)}
    (hargs : ViewArgumentsAre r s target args) :
    ∃ args', ViewArgumentsAre r s' target args' ∧
      List.Forall₂ (InterchangeOption r) args args' := by
  obtain ⟨view, hview, hargs⟩ := hargs
  obtain ⟨view', hview', hrel⟩ := h.viewIs h' hne hview
  obtain ⟨args', hargs', hrel⟩ :=
    Finds.exists_rel (fun limit => genericsOption_rel hrel limit) hargs
  exact ⟨args', ⟨view', hview', hargs'⟩, hrel⟩

theorem IsOpenClass.sideIs (h : IsOpenClass r c s) (h' : IsOpenClass r c s') {m : Node}
    {inside : Bool} {side : OurSide} (hside : SideIs r m s inside side) :
    SideIs r m s' inside side := by
  obtain ⟨limit, hside⟩ := hside
  refine .intro limit ?_
  simp only [ourSide, h.context, h'.context] at hside ⊢
  exact hside

/-! ## Nodes that face a class -/

/-- A node that is compared with a class by the type arguments of the class itself. -/
inductive Faces (r : Registry) (c : ClassId) : Node → Prop
  | erasure {m : Node} (harray : ArrayIs r m false) (hbounds : BoundsAre r m none)
      (he : ErasureIs r m (.ofClass c)) : Faces r c m
  | upper {m b : Node} {w : WildcardBounds} (hbounds : BoundsAre r m (some w))
      (hkind : w.kind = .upper) (hb : b ∈ w.bounds) (h : Faces r c b) : Faces r c m
  | lower {m b : Node} {w : WildcardBounds} (hbounds : BoundsAre r m (some w))
      (hkind : w.kind = .lower) (hb : b ∈ w.bounds) : Faces r c m

/-- What does not face a class is not compared with its arguments. -/
theorem Meets.erasure_ne_of_not_faces {m : Node} {guard : Option Guard} {side : OurSide}
    {e : Erasure} (hmeets : Meets r m s guard side e) (hs : IsOpenClass r c s)
    (hm : ¬Faces r c m) : side.erasure ≠ .ofClass c := by
  intro heq
  have he := (hmeets.side.erasureIs_of_unbound fun v _ => hs.binds v).1
  exact hm (.erasure hmeets.noArray hmeets.ours (heq ▸ he))

/-- By a node that does not face it a class that binds nothing is accepted as any other one. -/
theorem Holds.of_openClass (hs : IsOpenClass r c s) (hs' : IsOpenClass r c s') {inside : Bool}
    {ours theirs : Option Node} (h : Holds r inside ours theirs) (hinside : inside = false)
    (htheirs : theirs = some s) {m : Node} (hours : ours = some m) (hm : ¬Faces r c m) :
    Holds r false (some m) (some s') := by
  have hnew : ∀ n, ¬Remembers (bareGuard false) n s' := by simp
  -- only a wildcard of ours hands the class on, to comparisons at the top like this one
  induction h generalizing m with
  | @decided _ n _ hplan =>
    cases hinside
    cases htheirs
    cases hours
    cases hplan with
    | remembered _ h => exact absurd h (not_remembers_bareGuard false n s)
    | admitted hmeets _ hwithout =>
      have hwith := (hmeets.side.erasureIs_of_unbound fun v _ => hs.binds v).2
      exact absurd (hwithout.symm.trans hwith) (by decide)
  | components hplan _ _ =>
    cases htheirs
    cases hplan with
    | components _ harray _ _ => exact absurd (harray.unique hs.noArray) (by decide)
  | @bounds _ n _ _ _ _ hplan _ ih =>
    cases hinside
    cases htheirs
    cases hours
    cases hplan with
    | wildcards _ _ _ htheirs _ => simpa using htheirs.unique hs.noBounds
    | @ourWildcard w harray _ hbounds _ =>
      obtain ⟨kind, bounds⟩ := w
      refine .bounds (.ourWildcard harray (hnew n) hbounds hs'.noBounds) fun b hb t ht => ?_
      obtain rfl := List.mem_singleton.mp ht
      cases kind with
      | lower => exact absurd (.lower hbounds rfl hb) hm
      | upper =>
        have hb' : ¬Faces r c b := fun hb' => hm (.upper hbounds rfl hb hb')
        exact ih b hb s (List.mem_singleton_self s) rfl rfl rfl hb'
  | @arguments _ n _ _ hplan hpairs _ =>
    cases hinside
    cases htheirs
    cases hours
    cases hplan with
    | @arguments _ _ args _ hmeets hadmits hwith hargs hothers hlength =>
      have hne := hmeets.erasure_ne_of_not_faces hs hm
      obtain ⟨others', hothers', hrel⟩ := hs.viewArgumentsAre hs' hne hothers
      obtain rfl := hmeets.erasure.unique (erasureIs_of_resolvesTo hs.resolvesTo)
      have hmeets' : Meets r n s' (bareGuard false) _ _ :=
        ⟨hmeets.noArray, hnew n, hmeets.ours, hs'.noBounds, hs.sideIs hs' hmeets.side,
          erasureIs_of_resolvesTo hs'.resolvesTo⟩
      have hplan' := Planned.arguments hmeets' hadmits hwith hargs hothers'
        (hlength.trans hrel.length_eq)
      refine .arguments hplan' fun p' hp' => ?_
      have hzip := forall₂_pairsAlike_zip
        (forall₂_refl (InterchangeOption.refl (r := r)) args) hrel
      obtain ⟨p, hp, hpair⟩ := exists_mem_of_forall₂ hzip hp'
      exact (hpairs p hp).interchange hpair.ours hpair.theirs

end

/-! ## Missing arguments -/

/-- Pairs in which a node is missing are not found assignable. -/
theorem not_passes_of_missing {pairs : List (Option Node × Option Node)}
    {before after : Option Guard} (hne : pairs ≠ [])
    (hmissing : ∀ p ∈ pairs, p.1 = none ∨ p.2 = none) : ¬Passes r pairs before after := by
  cases pairs with
  | nil => exact absurd rfl hne
  | cons p pairs =>
    intro h
    obtain ⟨reached, hfirst, -⟩ := (passes_cons_iff ..).mp h
    simpa using ((Comparison.answers_of_missing (hmissing p (by simp)) ..).mp hfirst).1

section

variable {c : ClassId}

theorem genericsAre_allOpen_iff (args : List (Option Node)) :
    GenericsAre r (allOpen r c) args ↔
      args = List.replicate (r.typeParameters c).length none :=
  genericsAre_applied_iff ..

/-- The missing arguments of a class are not found to contain others, nor to be contained. -/
theorem not_passes_allOpen (hc : r.typeParameters c ≠ []) {args others : List (Option Node)}
    (hlength : args.length = others.length)
    (hopen : GenericsAre r (allOpen r c) args ∨ GenericsAre r (allOpen r c) others)
    {before after : Option Guard} : ¬Passes r (args.zip others) before after := by
  have hcount : (r.typeParameters c).length ≠ 0 := by simpa using hc
  rcases hopen with h | h
  · obtain rfl := (genericsAre_allOpen_iff _).mp h
    have hothers : others ≠ [] := by
      rintro rfl
      exact hcount (by simpa using hlength)
    refine not_passes_of_missing (by simp [hcount, hothers]) fun p hp => .inl ?_
    exact List.eq_of_mem_replicate (List.of_mem_zip hp).1
  · obtain rfl := (genericsAre_allOpen_iff _).mp h
    have hargs : args ≠ [] := by
      rintro rfl
      exact hcount (by simpa using hlength.symm)
    refine not_passes_of_missing (by simp [hcount, hargs]) fun p hp => .inr ?_
    exact List.eq_of_mem_replicate (List.of_mem_zip hp).2

/-- Nothing is assignable to a class whose arguments are all missing. -/
theorem not_decides_allOpen (hc : r.typeParameters c ≠ []) (m : Option Node) :
    ¬(Comparison.mk (some (allOpen r c)) m none).Decides r true := by
  rintro ⟨after, h⟩
  cases m with
  | none => simpa using ((Comparison.answers_of_missing (.inr rfl) ..).mp h).1
  | some m =>
    have hs := isOpenClass_allOpen (r := r) c
    obtain ⟨p, hplan, hcarry⟩ := (Comparison.answers_iff ..).mp h
    cases planned_of_planIs hplan with
    | components harray _ _ _ => exact absurd (harray.unique hs.noArray) (by decide)
    | remembered _ h => simp [Remembers] at h
    | wildcards _ _ hours _ _ | ourWildcard _ _ hours _ => simpa using hours.unique hs.noBounds
    | admitted hmeets _ hwithout =>
      simp [hmeets.side.unique (sideIs_of_head? hs.head m _)] at hwithout
    | arguments _ _ _ hargs _ hlength => exact not_passes_allOpen hc hlength (.inl hargs) hcarry
    | noArray _ _ | otherKind _ _ _ _ _ | theirWildcard _ _ _ _ | refused _ _
      | otherLength _ _ _ _ _ _ => simp [finds_carryOut_decided_iff] at hcarry

/-- A wildcard accepts a class if each of its bounds does. -/
theorem accepts_of_wildcard {m s : Node} {w : WildcardBounds} (hs : IsOpenClass r c s)
    (hbounds : BoundsAre r m (some w))
    (h : (Comparison.mk (some m) (some s) none).Decides r true) :
    ∀ b ∈ w.bounds, Accepts r w.kind b s := by
  obtain ⟨after, h⟩ := h
  obtain ⟨p, hplan, hcarry⟩ := (Comparison.answers_iff ..).mp h
  cases planned_of_planIs hplan with
  | components _ harray _ _ => exact absurd (harray.unique hs.noArray) (by decide)
  | remembered _ h => simp [Remembers] at h
  | wildcards _ _ _ htheirs _ => simpa using htheirs.unique hs.noBounds
  | ourWildcard _ _ hours _ =>
    obtain rfl := Option.some.inj (hbounds.unique hours)
    have hall := (finds_acceptsAll_true_iff ..).mp ((finds_carryOut_bounds_iff ..).mp hcarry).1
    exact fun b hb => hall b hb s (List.mem_singleton_self s)
  | admitted hmeets _ _ | arguments hmeets _ _ _ _ _ => simpa using hbounds.unique hmeets.ours
  | noArray _ _ | otherKind _ _ _ _ _ | theirWildcard _ _ _ _ | refused _ _
    | otherLength _ _ _ _ _ _ => simp [finds_carryOut_decided_iff] at hcarry

/-- A class whose arguments are all missing is assignable to nothing that faces it. -/
theorem Faces.not_decides {m : Node} (hc : r.typeParameters c ≠ []) (hm : Faces r c m) :
    ¬(Comparison.mk (some m) (some (allOpen r c)) none).Decides r true := by
  have hs := isOpenClass_allOpen (r := r) c
  induction hm with
  | @erasure m harray hbounds he =>
    rintro ⟨after, h⟩
    obtain ⟨p, hplan, hcarry⟩ := (Comparison.answers_iff ..).mp h
    cases planned_of_planIs hplan with
    | components harray' _ _ _ => exact absurd (harray.unique harray') (by decide)
    | remembered _ h => simp [Remembers] at h
    | wildcards _ _ hours _ _ => simpa using hbounds.unique hours
    | ourWildcard _ _ hours _ => simpa using hbounds.unique hours
    | admitted hmeets _ hwithout =>
      have hwith := (hmeets.side.erasureIs_of_unbound fun v _ => hs.binds v).2
      exact absurd (hwithout.symm.trans hwith) (by decide)
    | arguments hmeets _ _ hargs hothers hlength =>
      have hside := (hmeets.side.erasureIs_of_unbound fun v _ => hs.binds v).1
      rw [hside.unique he, viewArgumentsAre_iff_of_resolvesTo hs.resolvesTo] at hothers
      exact not_passes_allOpen hc hlength (.inr hothers) hcarry
    | noArray _ _ | otherKind _ _ _ _ _ | theirWildcard _ _ _ _ | refused _ _
      | otherLength _ _ _ _ _ _ => simp [finds_carryOut_decided_iff] at hcarry
  | upper hbounds hkind hb _ ih =>
    intro h
    have haccepts := accepts_of_wildcard hs hbounds h _ hb
    rw [hkind] at haccepts
    exact ih haccepts
  | lower hbounds hkind hb =>
    intro h
    have haccepts := accepts_of_wildcard hs hbounds h _ hb
    rw [hkind] at haccepts
    exact not_decides_allOpen hc _ haccepts

end

/-- Two checks whose comparisons hold by themselves alike differ if exactly one passes by its
guard. -/
theorem eq_iff_of_holdsBare_iff {n other n' other' : Node} {b b' : Bool}
    (h : (Comparison.mk (some n) (some other) none).HoldsBare r ↔
      (Comparison.mk (some n') (some other') none).HoldsBare r)
    (hb : Finds (fun limit => isAssignableFrom limit r r (some n) (some other)) b)
    (hb' : Finds (fun limit => isAssignableFrom limit r r (some n') (some other')) b') :
    b = b' ↔ ((Comparison.mk (some n) (some other) none).PassesByGuard r ↔
      (Comparison.mk (some n') (some other') none).PassesByGuard r) := by
  rw [Bool.eq_iff_iff, eq_true_iff_of_finds hb, eq_true_iff_of_finds hb', ← h]
  by_cases hbare : (Comparison.mk (some n) (some other) none).HoldsBare r
  · simp [hbare, hbare.not_passesByGuard, (h.mp hbare).not_passesByGuard]
  · simp [hbare]

theorem eq_false_of_not_decides {n other : Option Node} {b : Bool}
    (h : ¬(Comparison.mk n other none).Decides r true)
    (hb : Finds (fun limit => isAssignableFrom limit r r n other) b) : b = false := by
  cases b with
  | false => rfl
  | true => exact absurd ((finds_isAssignableFrom_iff ..).mp hb) h

theorem not_decides_of_missing (other : Option Node) :
    ¬(Comparison.mk none other none).Decides r true := by
  rintro ⟨after, h⟩
  simpa using ((Comparison.answers_of_missing (.inl rfl) ..).mp h).1

/--
A class applied to missing nodes can always be built.  Nothing is assignable to it, and it is
assignable to nothing that faces the class.  To all else it is assignable exactly as the class
without arguments is, unless exactly one of the two checks passes by its guard.
-/
theorem allOpen_agrees_iff (r : Registry) (c : ClassId) (hc : r.typeParameters c ≠ []) :
    ∃ n, ofClassWith r c (List.replicate (r.typeParameters c).length none) = .ok n ∧
      (∀ m b, Finds (fun limit => isAssignableFrom limit r r (some n) m) b → b = false) ∧
      ∀ m b b', Finds (fun limit => isAssignableFrom limit r r m (some n)) b →
        Finds (fun limit => isAssignableFrom limit r r m (some (ofClass c))) b' →
        ((∃ k ∈ m, Faces r c k) → b = false) ∧
        ((∀ k ∈ m, ¬Faces r c k) → (b = b' ↔
          ((Comparison.mk m (some n) none).PassesByGuard r ↔
            (Comparison.mk m (some (ofClass c)) none).PassesByGuard r))) := by
  have hn := isOpenClass_allOpen (r := r) c
  have hplain := isOpenClass_ofClass (r := r) c
  refine ⟨allOpen r c, by simp [ofClassWith, allOpen, hc], fun m b hb => ?_,
    fun m b b' hb hb' => ?_⟩
  · exact eq_false_of_not_decides (not_decides_allOpen hc m) hb
  · cases m with
    | none =>
      obtain rfl := eq_false_of_not_decides (not_decides_of_missing _) hb
      obtain rfl := eq_false_of_not_decides (not_decides_of_missing _) hb'
      have hpasses : ∀ other, ¬(Comparison.mk none other none).PassesByGuard r :=
        fun other h => not_decides_of_missing other h.1
      simp [hpasses]
    | some m =>
      refine ⟨?_, fun hm => ?_⟩
      · rintro ⟨k, hk, hfaces⟩
        obtain rfl := Option.some.inj hk
        exact eq_false_of_not_decides (hfaces.not_decides hc) hb
      · have hm : ¬Faces r c m := hm m rfl
        refine eq_iff_of_holdsBare_iff ⟨fun h => ?_, fun h => ?_⟩ hb hb'
        · exact h.of_openClass hn hplain rfl rfl rfl hm
        · exact h.of_openClass hplain hn rfl rfl rfl hm

/-- Lists of what is left open. -/
theorem allOpen_agrees_list :
    Registry.bootstrap.typeParameters Bootstrap.wellKnown.list ≠ [] ∧
      ∃ n, ofClassWith .bootstrap Bootstrap.wellKnown.list
          (List.replicate (Registry.bootstrap.typeParameters Bootstrap.wellKnown.list).length
            none) = .ok n ∧
        (∀ m b, Finds (fun limit => isAssignableFrom limit .bootstrap .bootstrap (some n) m) b →
          b = false) ∧
        ∀ m b b',
          Finds (fun limit => isAssignableFrom limit .bootstrap .bootstrap m (some n)) b →
          Finds (fun limit => isAssignableFrom limit .bootstrap .bootstrap m
            (some (ofClass Bootstrap.wellKnown.list))) b' →
          ((∃ k ∈ m, Faces .bootstrap Bootstrap.wellKnown.list k) → b = false) ∧
          ((∀ k ∈ m, ¬Faces .bootstrap Bootstrap.wellKnown.list k) → (b = b' ↔
            ((Comparison.mk m (some n) none).PassesByGuard .bootstrap ↔
              (Comparison.mk m (some (ofClass Bootstrap.wellKnown.list)) none).PassesByGuard
                .bootstrap))) :=
  ⟨by decide, allOpen_agrees_iff .bootstrap Bootstrap.wellKnown.list (by decide)⟩

/-- Lists of strings are lists, but neither they nor lists are lists of what is left open. -/
theorem allOpen_list_refused :
    ∃ n, ofClassWith .bootstrap Bootstrap.wellKnown.list [none] = .ok n ∧
      Finds (fun limit => isAssignableFrom limit .bootstrap .bootstrap (some n)
        (some (ofExpr (.listOf (.ofClass Bootstrap.wellKnown.string))))) false ∧
      Finds (fun limit => isAssignableFrom limit .bootstrap .bootstrap
        (some (ofClass Bootstrap.wellKnown.list))
        (some (ofExpr (.listOf (.ofClass Bootstrap.wellKnown.string))))) true ∧
      Finds (fun limit => isAssignableFrom limit .bootstrap .bootstrap
        (some (ofClass Bootstrap.wellKnown.list)) (some n)) false ∧
      Finds (fun limit => isAssignableFrom limit .bootstrap .bootstrap
        (some (ofClass Bootstrap.wellKnown.list))
        (some (ofClass Bootstrap.wellKnown.list))) true :=
  ⟨_, rfl, .intro 12 (by decide +kernel), .intro 12 (by decide +kernel),
    .intro 12 (by decide +kernel), .intro 12 (by decide +kernel)⟩

end Node

end TypeConversion
