import TypeConversion.Proofs.Node.Lineage

/-!
# A node against its own views

A node that is compared with itself is accepted: its erasure is that of both sides, its view as that
erasure is the node itself, and so every argument, component and bound is compared with itself in
turn.  Only a wildcard with several bounds is not, since each of its bounds has to accept each, and
nothing accepts a missing node.

A view of a node has the same arguments as what the check finds when it views the node as the
erasure of that view.  So what is left of the comparison with a view is the comparison of the
erasures, which fails for primitives alone.

**Results**

* `answers_self`: a check of a node against itself that ends holds;
* `view_isAssignableFrom_iff`: a check of a view of a node against the node;
* `view_not_isAssignableFrom`: two views that do not accept their nodes.
-/

namespace TypeConversion

namespace Node

open Walk Registry

variable {r : Registry}

/-! ## What is met in a node -/

/-- A node that comes to be compared if the first is compared with itself. -/
inductive Contains (r : Registry) (n : Node) : Node → Prop
  | self : Contains r n n
  | argument {m a : Node} {args : List (Option Node)} (h : Contains r n m)
      (hargs : GenericsAre r m args) (ha : some a ∈ args) : Contains r n a
  | component {m c : Node} (h : Contains r n m) (hc : ComponentIs r m (some c)) : Contains r n c
  | bound {m b : Node} {w : WildcardBounds} (h : Contains r n m) (hw : BoundsAre r m (some w))
      (hb : b ∈ w.bounds) : Contains r n b

/-- No wildcard with several bounds and no missing argument is met in a node. -/
def SelfComparable (r : Registry) (n : Node) : Prop :=
  ∀ m, Contains r n m → (∀ w, BoundsAre r m (some w) → w.bounds.length ≤ 1) ∧
    ∀ args, GenericsAre r m args → none ∉ args

theorem Contains.trans {n m k : Node} (h : Contains r n m) (h' : Contains r m k) :
    Contains r n k := by
  induction h' with
  | self => exact h
  | argument _ hargs ha ih => exact ih.argument hargs ha
  | component _ hc ih => exact ih.component hc
  | bound _ hw hb ih => exact ih.bound hw hb

theorem SelfComparable.of_contains {n m : Node} (hn : SelfComparable r n)
    (h : Contains r n m) : SelfComparable r m :=
  fun k hk => hn k (h.trans hk)

/-- A property that is handed on to all that is met in a node. -/
theorem selfComparable_of_closed (good : Node → Prop) {n : Node} (hn : good n)
    (hargs : ∀ m, good m → ∀ args, GenericsAre r m args → ∀ a ∈ args, ∃ b, a = some b ∧ good b)
    (hcomponent : ∀ m, good m → ∀ c, ComponentIs r m (some c) → good c)
    (hbounds : ∀ m, good m → ∀ w, BoundsAre r m (some w) →
      w.bounds.length ≤ 1 ∧ ∀ b ∈ w.bounds, good b) : SelfComparable r n := by
  have hgood : ∀ m, Contains r n m → good m := by
    intro m hm
    induction hm with
    | self => exact hn
    | argument _ hfound ha ih =>
      obtain ⟨b, hb, hgood⟩ := hargs _ ih _ hfound _ ha
      obtain rfl := Option.some.inj hb
      exact hgood
    | component _ hc ih => exact hcomponent _ ih _ hc
    | bound _ hw hb ih => exact (hbounds _ ih _ hw).2 _ hb
  intro m hm
  refine ⟨fun w hw => (hbounds m (hgood m hm) w hw).1, fun args hfound hnone => ?_⟩
  obtain ⟨b, hb, -⟩ := hargs m (hgood m hm) args hfound none hnone
  simp at hb

/-- A class has no component. -/
theorem componentIs_of_head? {n : Node} {c : ClassId} (h : n.expr.head? = some (.ofClass c)) :
    ComponentIs r n none := by
  cases he : n.expr with
  | plain e =>
    obtain rfl : e = .ofClass c := by simpa [he, TypeExpr.head?] using h
    cases n with
    | written t context =>
      obtain rfl : t = .plain (.ofClass c) := by simpa using he
      exact (componentIs_plain_iff ..).mpr rfl
    | arrayOf n =>
      rcases n.expr.arrayOf_cases with ⟨e, a, -, ha, harray⟩ | harray
      · obtain rfl : a = .ofClass c := by simpa [expr, harray] using he
        exact absurd (Erasure.isArray_of_array? ha) Bool.false_ne_true
      · simp [expr, harray] at he
    | applied raw params given => simp [expr] at he
  | parameterized raw args owner =>
    refine (componentIs_of_step (by rw [he]; rfl) _).mpr ?_
    exact ⟨_, (stepsTo_of_parameterized he _).mpr rfl, (componentIs_plain_iff ..).mpr rfl⟩
  | genericArray _ | wildcard _ _ | typeVar _ => simp [he, TypeExpr.head?] at h

/-- A class whose arguments are classes without arguments. -/
theorem selfComparable_of_classes {n : Node} {c : ClassId} {args : List (Option Node)}
    (hn : n.expr.head? = some (.ofClass c)) (hargs : GenericsAre r n args)
    (hplain : ∀ a ∈ args, ∃ b d, a = some b ∧ b.expr.head? = some (.ofClass d) ∧
      GenericsAre r b []) : SelfComparable r n := by
  have hclass : ∀ m, (m = n ∨ ∃ d, m.expr.head? = some (.ofClass d) ∧ GenericsAre r m []) →
      ∃ d, m.expr.head? = some (.ofClass d) := by
    rintro m (rfl | ⟨d, hd, -⟩)
    · exact ⟨c, hn⟩
    · exact ⟨d, hd⟩
  refine selfComparable_of_closed
    (fun m => m = n ∨ ∃ d, m.expr.head? = some (.ofClass d) ∧ GenericsAre r m [])
    (.inl rfl) ?_ ?_ ?_
  · rintro m (rfl | ⟨d, hd, hnone⟩) found hfound a ha
    · obtain rfl := hfound.unique (generics_steady r m) hargs
      obtain ⟨b, d, rfl, hb⟩ := hplain a ha
      exact ⟨b, rfl, .inr ⟨d, hb⟩⟩
    · obtain rfl := hfound.unique (generics_steady r m) hnone
      simp at ha
  · intro m hm b hb
    obtain ⟨d, hd⟩ := hclass m hm
    simpa using hb.unique (componentType_steady r m) (componentIs_of_head? hd)
  · intro m hm w hw
    obtain ⟨d, hd⟩ := hclass m hm
    simpa using hw.unique (boundsAre_of_head? hd)

/-! ## The sides of a comparison of a node with itself -/

theorem erasureIs_iff {n : Node} {e : Erasure} :
    ErasureIs r n e ↔ ∃ found, ResolvesTo r n found ∧ e = found.getD r.object := by
  constructor
  · rintro ⟨limit, h⟩
    obtain ⟨found, hfound, h⟩ := Option.bind_eq_some_iff.mp h
    exact ⟨found, .intro limit hfound, (Option.some.inj h).symm⟩
  · rintro ⟨found, hfound, rfl⟩
    exact erasureIs_of_resolvesTo hfound

/-- Against itself a node is taken by its own erasure. -/
theorem SideIs.erasureIs_self {n : Node} {inside : Bool} {side : OurSide}
    (h : SideIs r n n inside side) : ErasureIs r n side.erasure := by
  obtain ⟨limit, h⟩ := h
  have hown : ∀ {e} {exact withArguments : Bool}, resolveOr r limit n r.object = some e →
      ErasureIs r n (OurSide.mk e exact withArguments).erasure := fun he => .intro limit he
  cases he : n.expr with
  | typeVar v =>
    simp only [ourSide, he] at h
    obtain ⟨bound, hbound, h⟩ := Option.bind_eq_some_iff.mp h
    obtain ⟨found, hfound, h⟩ := Option.bind_eq_some_iff.mp h
    cases found with
    | some e =>
      obtain rfl := Option.some.inj h
      -- the variable is bound to something, which is what the node resolves to
      cases bound with
      | none => simp [resolveOption] at hfound
      | some b =>
        have hstep : StepsTo r n (some b) :=
          (stepsTo_of_typeVar he _).mpr ⟨some b, .intro limit hbound, rfl⟩
        have hresolved : ResolvesTo r n (some e) :=
          (resolvesTo_of_step (by rw [he]; rfl) _).mpr ⟨some b, hstep, .intro limit hfound⟩
        exact erasureIs_of_resolvesTo hresolved
    | none =>
      -- the other side is the same node, and has no more to say about the variable
      obtain ⟨bound', hbound', h⟩ := Option.bind_eq_some_iff.mp h
      obtain rfl := Option.some.inj (hbound.symm.trans hbound')
      cases bound with
      | none =>
        obtain ⟨e, hresolve, h⟩ := Option.bind_eq_some_iff.mp h
        obtain rfl := Option.some.inj h
        exact hown hresolve
      | some b =>
        obtain ⟨found, hfound', h⟩ := Option.bind_eq_some_iff.mp h
        obtain rfl := Option.some.inj (hfound.symm.trans hfound')
        obtain ⟨e, hresolve, h⟩ := Option.bind_eq_some_iff.mp h
        obtain rfl := Option.some.inj h
        exact hown hresolve
  | plain _ | parameterized _ _ _ | genericArray _ | wildcard _ _ =>
    simp only [ourSide, he] at h
    obtain ⟨e, hresolve, h⟩ := Option.bind_eq_some_iff.mp h
    obtain rfl := Option.some.inj h
    exact hown hresolve

/-- Unless their context binds our variable, a node is taken by its own erasure, and with its
arguments. -/
theorem SideIs.erasureIs_of_unbound {n other : Node} {inside : Bool} {side : OurSide}
    (h : SideIs r n other inside side)
    (hunbound : ∀ v, n.expr = .typeVar v → Binds r other.context v none) :
    ErasureIs r n side.erasure ∧ side.withArguments = true := by
  obtain ⟨limit, h⟩ := h
  cases he : n.expr with
  | typeVar v =>
    simp only [ourSide, he] at h
    obtain ⟨bound, hbound, h⟩ := Option.bind_eq_some_iff.mp h
    obtain ⟨found, hfound, h⟩ := Option.bind_eq_some_iff.mp h
    cases found with
    | some e =>
      obtain rfl := Option.some.inj h
      cases bound with
      | none => simp [resolveOption] at hfound
      | some b =>
        have hstep : StepsTo r n (some b) :=
          (stepsTo_of_typeVar he _).mpr ⟨some b, .intro limit hbound, rfl⟩
        have hresolved : ResolvesTo r n (some e) :=
          (resolvesTo_of_step (by rw [he]; rfl) _).mpr ⟨some b, hstep, .intro limit hfound⟩
        exact ⟨erasureIs_of_resolvesTo hresolved, rfl⟩
    | none =>
      obtain ⟨theirBound, htheirs, h⟩ := Option.bind_eq_some_iff.mp h
      obtain rfl := (hunbound v he).eq_of_some (resolveInContext_steady r _ v) htheirs
      obtain ⟨e, hresolve, h⟩ := Option.bind_eq_some_iff.mp h
      obtain rfl := Option.some.inj h
      exact ⟨.intro limit hresolve, rfl⟩
  | plain _ | parameterized _ _ _ | genericArray _ | wildcard _ _ =>
    simp only [ourSide, he] at h
    obtain ⟨e, hresolve, h⟩ := Option.bind_eq_some_iff.mp h
    obtain rfl := Option.some.inj h
    exact ⟨.intro limit hresolve, rfl⟩

/-- As its own erasure a node has its own arguments. -/
theorem viewArgumentsAre_self {n : Node} {e : Erasure} (he : ErasureIs r n e)
    {args : List (Option Node)} (h : ViewArgumentsAre r n e args) : GenericsAre r n args := by
  obtain ⟨found, hfound, rfl⟩ := erasureIs_iff.mp he
  cases found with
  | some e => exact (viewArgumentsAre_iff_of_resolvesTo hfound args).mp h
  | none =>
    obtain ⟨view, hview, hargs⟩ := h
    obtain ⟨e, he, h⟩ := (viewIs_some_iff ..).mp hview
    obtain rfl := hfound.unique (resolve_steady r n) he
    obtain rfl : view = some n := h
    exact hargs

/-- An array has a component. -/
theorem exists_of_componentIs {n : Node} (harray : ArrayIs r n true) {c : Option Node}
    (hc : ComponentIs r n c) : ∃ m, c = some m := by
  obtain ⟨limit, hlimit⟩ := id harray
  induction limit generalizing n with
  | zero => simp [isArray] at hlimit
  | succ limit ih =>
    have hstep : n.expr.isFinal = false → ∃ m, c = some m := by
      intro hfinal
      obtain ⟨t, ht, hc⟩ := (componentIs_of_step hfinal c).mp hc
      change isArray r (limit + 1) n = some true at hlimit
      rw [isArray_of_step hfinal] at hlimit
      obtain ⟨t', ht', hlimit⟩ := Option.bind_eq_some_iff.mp hlimit
      obtain rfl := ht.unique (.intro limit ht')
      cases t with
      | none => simp at hlimit
      | some t => exact ih (.intro limit hlimit) hc hlimit
    cases n with
    | arrayOf m => exact ⟨m, (componentIs_arrayOf_iff ..).mp hc⟩
    | applied raw params given => exact hstep (by simp [expr, TypeExpr.isFinal])
    | written t context =>
      cases t with
      | plain e =>
        have he := (arrayIs_of_plain (expr_written ..) _).mp harray
        have hc := (componentIs_plain_iff ..).mp hc
        rw [Erasure.component?, ← he] at hc
        exact ⟨_, hc⟩
      | genericArray t => exact ⟨_, (componentIs_genericArray_iff ..).mp hc⟩
      | parameterized _ _ _ | wildcard _ _ | typeVar _ => exact hstep rfl

/-! ## A node against itself -/

theorem boundComparison_self (kind : WildcardKind) (b : Node) :
    boundComparison kind b b = ⟨some b, some b, none⟩ := by
  cases kind <;> rfl

/-- The members of a list zipped with itself. -/
theorem eq_of_zip_self_eq {α : Type} {as : List α} {before after : List (α × α)} {a b : α}
    (h : as.zip as = before ++ (a, b) :: after) : a = b ∧ a ∈ as := by
  have hmem : (a, b) ∈ as.zip as := by rw [h]; simp
  refine ⟨?_, (List.of_mem_zip hmem).1⟩
  obtain ⟨i, hi, heq⟩ := List.getElem_of_mem hmem
  rw [List.getElem_zip] at heq
  obtain ⟨rfl, rfl⟩ := Prod.mk.inj heq
  rfl

/-- Arguments that are compared with themselves under smaller limits hold. -/
theorem exists_passes_self {n other : Node} {guard : Option Guard} {args : List (Option Node)}
    (hplan : PlanIs r n other guard (.arguments (args.zip args))) {limit : Nat}
    (hends : ((Comparison.mk (some n) (some other) guard).check r limit).isSome)
    (hself : ∀ a, some a ∈ args → ∀ reached, ∀ l < limit,
      ((Comparison.mk (some a) (some a) reached).check r l).isSome →
      ∃ after, (Comparison.mk (some a) (some a) reached).Answers r true after)
    (hmissing : none ∉ args) :
    ∃ after, (Comparison.mk (some n) (some other) guard).Answers r true after := by
  have hpasses : ∃ after,
      Passes r (args.zip args) (some ((n.expr, other.expr) :: guard.getD [])) after := by
    refine exists_passes_of_reached fun before arg otherArg after reached heq hbefore => ?_
    obtain ⟨rfl, ha⟩ := eq_of_zip_self_eq heq
    rw [heq] at hplan
    obtain ⟨l, hl, hend⟩ := exists_check_of_opens hends (.arguments hplan hbefore)
    cases arg with
    | none => exact absurd ha hmissing
    | some a => exact hself a ha reached l hl hend
  obtain ⟨after, hpasses⟩ := hpasses
  exact ⟨after, (Comparison.answers_iff ..).mpr ⟨_, hplan, hpasses⟩⟩

/-- A check of a node against itself holds if it ends. -/
theorem answers_self {limit : Nat} {n : Node} {guard : Option Guard} (hn : SelfComparable r n)
    (hends : ((Comparison.mk (some n) (some n) guard).check r limit).isSome) :
    ∃ after, (Comparison.mk (some n) (some n) guard).Answers r true after := by
  induction limit using Nat.strong_induction_on generalizing n guard with
  | _ limit ih =>
  obtain ⟨⟨holds, after⟩, hanswer⟩ := Option.isSome_iff_exists.mp hends
  obtain ⟨p, hplan, -⟩ := (Comparison.answers_iff ..).mp (.intro limit hanswer)
  have hplanned := planned_of_planIs hplan
  obtain ⟨hbounds, hargs⟩ := hn n .self
  have hdecided : Planned r n n guard (.decided true) →
      ∃ after, (Comparison.mk (some n) (some n) guard).Answers r true after := fun h =>
    h.decides_decided_iff.mpr rfl
  cases hplanned with
  | @components c c' harray hother hc hc' =>
    obtain rfl := hc.unique (componentType_steady r n) hc'
    obtain ⟨c, rfl⟩ := exists_of_componentIs harray hc
    obtain ⟨l, hl, hend⟩ := exists_check_of_opens hends (.components hplan)
    have hself := ih l hl (hn.of_contains (.component .self hc)) hend
    exact (planned_of_planIs hplan).decides_components_iff.mpr hself
  | noArray harray hother => exact absurd (harray.unique hother) (by decide)
  | remembered harray h => exact hdecided (.remembered harray h)
  | @wildcards ours theirs harray hnew hours htheirs hkind =>
    obtain rfl := Option.some.inj (hours.unique htheirs)
    refine (planned_of_planIs hplan).decides_bounds_iff.mpr ?_
    have hlength := hbounds ours hours
    match hw : ours.bounds, hlength with
    | [], _ => exact ⟨0, rfl⟩
    | [b], _ =>
      rw [finds_acceptsAll_singleton_iff, boundComparison_self]
      rw [hw] at hplan
      change PlanIs r n n guard (.bounds ours.kind ([] ++ b :: []) ([] ++ b :: [])) at hplan
      have hopens := Opens.bounds hplan (by simp) (by simp)
      rw [boundComparison_self] at hopens
      obtain ⟨l, hl, hend⟩ := exists_check_of_opens hends hopens
      exact ih l hl (hn.of_contains (.bound .self hours (by simp [hw]))) hend
  | otherKind harray hnew hours htheirs hkind =>
    obtain rfl := Option.some.inj (hours.unique htheirs)
    exact absurd rfl hkind
  | theirWildcard harray hnew hours htheirs => simpa using hours.unique htheirs
  | ourWildcard harray hnew hours htheirs => simpa using hours.unique htheirs
  | @refused side e hmeets hadmits =>
    obtain rfl := hmeets.side.erasureIs_self.unique hmeets.erasure
    exact absurd (hadmits.symm.trans (admits_self r ..)) (by decide)
  | admitted hmeets hadmits hwithout => exact hdecided (.admitted hmeets hadmits hwithout)
  | otherLength hmeets hadmits hwith hours htheirs hlength =>
    have htheirs := viewArgumentsAre_self hmeets.side.erasureIs_self htheirs
    rw [hours.unique (generics_steady r n) htheirs] at hlength
    exact absurd rfl hlength
  | arguments hmeets hadmits hwith hours htheirs hlength =>
    have htheirs := viewArgumentsAre_self hmeets.side.erasureIs_self htheirs
    obtain rfl := hours.unique (generics_steady r n) htheirs
    exact exists_passes_self hplan hends
      (fun a ha reached l hl hend => ih l hl (hn.of_contains (.argument .self hours ha)) hend)
      (hargs _ hours)

/-! ## A view of a node against the node -/

/-- What names a class, against a node that is no wildcard and has an erasure. -/
theorem Meets.eq_of_head? {n other : Node} {c : ClassId} {e : Erasure} {guard : Option Guard}
    {side : OurSide} {found : Erasure} (h : Meets r n other guard side found)
    (hn : n.expr.head? = some (.ofClass c)) (hother : ResolvesTo r other (some e)) :
    side = ⟨.ofClass c, guard.isSome, true⟩ ∧ e = found :=
  ⟨h.side.unique (sideIs_of_head? hn other _),
    (erasureIs_of_resolvesTo hother).unique h.erasure⟩

/-- What names a class is refused by erasure, or compared by its arguments. -/
theorem Planned.cases_of_head? {n other : Node} {c : ClassId} {e : Erasure} {p : Plan}
    (h : Planned r n other none p) (hn : n.expr.head? = some (.ofClass c))
    (hother : ResolvesTo r other (some e)) (hwild : ∀ w, ¬BoundsAre r other (some w)) :
    (r.isAssignable (.ofClass c) e = false ∧ p = .decided false) ∨
      (r.isAssignable (.ofClass c) e = true ∧ ∃ args otherArgs, GenericsAre r n args ∧
        ViewArgumentsAre r other (.ofClass c) otherArgs ∧
        p = if args.length = otherArgs.length then .arguments (args.zip otherArgs)
          else .decided false) := by
  have hnoArray : ArrayIs r n false := arrayIs_of_head? hn
  have hnoBounds : BoundsAre r n none := boundsAre_of_head? hn
  cases h with
  | components harray _ _ _ => exact absurd (harray.unique hnoArray) (by decide)
  | noArray harray _ => exact absurd (harray.unique hnoArray) (by decide)
  | remembered harray h => simp [Remembers] at h
  | wildcards _ _ hours _ _ => simpa using hours.unique hnoBounds
  | otherKind _ _ hours _ _ => simpa using hours.unique hnoBounds
  | ourWildcard _ _ hours _ => simpa using hours.unique hnoBounds
  | theirWildcard _ _ _ htheirs => exact absurd htheirs (hwild _)
  | refused hmeets hadmits =>
    obtain ⟨rfl, rfl⟩ := hmeets.eq_of_head? hn hother
    exact .inl ⟨by simpa [OurSide.admits] using hadmits, rfl⟩
  | admitted hmeets _ hwithout =>
    obtain ⟨rfl, rfl⟩ := hmeets.eq_of_head? hn hother
    simp at hwithout
  | otherLength hmeets hadmits _ hours htheirs hlength =>
    obtain ⟨rfl, rfl⟩ := hmeets.eq_of_head? hn hother
    exact .inr ⟨by simpa [OurSide.admits] using hadmits, _, _, hours, htheirs,
      by rw [if_neg hlength]⟩
  | arguments hmeets hadmits _ hours htheirs hlength =>
    obtain ⟨rfl, rfl⟩ := hmeets.eq_of_head? hn hother
    exact .inr ⟨by simpa [OurSide.admits] using hadmits, _, _, hours, htheirs,
      by rw [if_pos hlength]⟩

/-- A view by which something else names a node is accepted if its erasure is. -/
theorem decides_of_view {m v : Node} {c : ClassId} {e : Erasure}
    (hm : ResolvesTo r m (some e)) (hview : ViewIs r (some m) (.ofClass c) (some v))
    (hv : v.expr.head? = some (.ofClass c)) (hwild : ∀ w, ¬BoundsAre r m (some w))
    (hself : SelfComparable r v) {limit : Nat}
    (hends : ((Comparison.mk (some v) (some m) none).check r limit).isSome) :
    (Comparison.mk (some v) (some m) none).Decides r (r.isAssignable (.ofClass c) e) := by
  obtain ⟨⟨holds, after⟩, hanswer⟩ := Option.isSome_iff_exists.mp hends
  obtain ⟨p, hplan, -⟩ := (Comparison.answers_iff ..).mp (.intro limit hanswer)
  have hplanned := planned_of_planIs hplan
  rcases hplanned.cases_of_head? hv hm hwild with
    ⟨hfails, rfl⟩ | ⟨hholds, args, otherArgs, hargs, ⟨view, hview', hotherArgs⟩, rfl⟩
  · rw [hfails]
    exact hplanned.decides_decided_iff.mpr rfl
  · -- the check takes the node as the erasure of the view, which is the view
    obtain rfl := hview.unique (asErasure_steady r _ _) hview'
    obtain rfl := hargs.unique (generics_steady r v) hotherArgs
    rw [if_pos rfl] at hplan
    rw [hholds]
    exact exists_passes_self hplan hends
      (fun a ha reached l _ hend =>
        answers_self (hself.of_contains (.argument .self hargs ha)) hend)
      ((hself v .self).2 _ hargs)

/--
A check of a view of a node as a class against the node, where it ends, in a registry whose
supertypes name classes and have no circles.  The node is no wildcard, and no wildcard with several
bounds and no missing argument is met in the view.  The view accepts the node, unless the node is of
a primitive class and the view of another.
-/
theorem view_isAssignableFrom_iff (hbase : r.ExtendsBase) (hi : r.AcyclicInheritance)
    (h : r.NamedInheritance) {m v : Node} {c : ClassId}
    (hview : ViewIs r (some m) (.ofClass c) (some v)) (hwild : ∀ w, ¬BoundsAre r m (some w))
    (hself : SelfComparable r v) {holds : Bool}
    (hends : Finds (fun limit => isAssignableFrom limit r r (some v) (some m)) holds) :
    holds = true ↔
      ∀ e, ResolvesTo r m (some e) → r.isPrimitive e = true → e = .ofClass c := by
  obtain ⟨after, hanswer⟩ := (finds_isAssignableFrom_iff ..).mp hends
  obtain ⟨limit, hlimit⟩ := id hanswer
  have hend : ((Comparison.mk (some v) (some m) none).check r limit).isSome :=
    Option.isSome_iff_exists.mpr ⟨_, hlimit⟩
  -- a node that is its own view is compared with itself
  have hsame : v = m → holds = true := by
    rintro rfl
    obtain ⟨after', htrue⟩ := answers_self hself hend
    exact (hanswer.unique htrue).1
  obtain ⟨found, hfound, hrest⟩ := (viewIs_some_iff ..).mp hview
  cases found with
  | none =>
    obtain rfl := Option.some.inj hrest
    refine ⟨fun _ e he => ?_, fun _ => hsame rfl⟩
    simpa using hfound.unique (resolve_steady r v) he
  | some e =>
    have honly : ∀ e', ResolvesTo r m (some e') → e' = e := fun e' he' =>
      Option.some.inj (he'.unique (resolve_steady r m) hfound)
    by_cases hclass : e = .ofClass c
    · refine ⟨fun _ e' he' _ => (honly e' he').trans hclass, fun _ => hsame ?_⟩
      simp only [hclass, if_true] at hrest
      exact Option.some.inj hrest
    · have hv := head?_of_viewIs hi h hfound hclass hview
      obtain ⟨after', hdecides⟩ := decides_of_view hfound hview hv hwild hself hend
      obtain rfl := (hanswer.unique hdecides).1
      have hbelow : r.IsBelow e (.ofClass c) := by
        obtain ⟨view, hview', hsome, -⟩ := exists_viewIs_of_named hi h hfound (.ofClass c)
        obtain rfl := hview.unique (asErasure_steady r (some m) _) hview'
        exact hsome.mp rfl
      cases hprimitive : r.isPrimitive e with
      | true =>
        rw [isAssignable_of_isBelow_primitive hbase h hprimitive hbelow hclass]
        simp only [Bool.false_eq_true, false_iff]
        exact fun hall => hclass (hall e hfound hprimitive)
      | false =>
        rw [isAssignable_of_isSubclass (isSubclass_of_isBelow hbase h hprimitive hbelow)]
        refine ⟨fun _ e' he' hprimitive' => ?_, fun _ => rfl⟩
        rw [honly e' he', hprimitive] at hprimitive'
        exact absurd hprimitive' Bool.false_ne_true

/-- Integers as what they are compared by. -/
def comparableInteger : Node :=
  written
    (.parameterized Bootstrap.wellKnown.comparable [.ofClass Bootstrap.wellKnown.integer] none)
    (some (.ofClass Bootstrap.wellKnown.integer))

/-- Integers are accepted by what they are compared by. -/
theorem view_isAssignableFrom_integer :
    ViewIs bootstrap (some (.ofClass Bootstrap.wellKnown.integer))
        (.ofClass Bootstrap.wellKnown.comparable) (some comparableInteger) ∧
      ∃ holds, Finds (fun limit => isAssignableFrom limit bootstrap bootstrap
        (some comparableInteger) (some (.ofClass Bootstrap.wellKnown.integer))) holds ∧
        holds = true := by
  have hview : ViewIs bootstrap (some (.ofClass Bootstrap.wellKnown.integer))
      (.ofClass Bootstrap.wellKnown.comparable) (some comparableInteger) := .intro 6 rfl
  obtain ⟨holds, hends⟩ : ∃ holds, Finds (fun limit => isAssignableFrom limit bootstrap bootstrap
      (some comparableInteger) (some (.ofClass Bootstrap.wellKnown.integer))) holds :=
    ⟨_, 12, rfl⟩
  have hself : SelfComparable bootstrap comparableInteger := by
    refine selfComparable_of_classes rfl ((genericsAre_parameterized_iff ..).mpr rfl) ?_
    intro a ha
    obtain rfl := List.mem_singleton.mp ha
    exact ⟨_, _, rfl, rfl, (genericsAre_plain_iff ..).mpr rfl⟩
  have hclass : ResolvesTo bootstrap (.ofClass Bootstrap.wellKnown.integer)
      (some (.ofClass Bootstrap.wellKnown.integer)) := resolvesTo_of_head? rfl
  refine ⟨hview, holds, hends, ?_⟩
  refine (view_isAssignableFrom_iff extendsBase_bootstrap
    (acyclicInheritance_of_supertypesFirst bootstrap_supertypesFirst)
    (namedInheritance_of_check (by decide +kernel)) hview
    (fun w hw => by simpa using hw.unique (boundsAre_of_head? rfl)) hself hends).mpr ?_
  intro e he hprimitive
  obtain rfl := Option.some.inj (he.unique (resolve_steady _ _) hclass)
  exact absurd hprimitive (by decide +kernel)

/-- The class `P` of primitive kind that declares the interface `I`, and a class `X` that declares
to be a list of what has two bounds. -/
def declaringBounds : Registry :=
  declaringPrimitive.push
    { name := "X",
      interfaces := [.parameterized Bootstrap.wellKnown.list
        [.wildcard [.ofClass Bootstrap.wellKnown.cloneable,
          .ofClass Bootstrap.wellKnown.serializable] []] none] }

/-- The view of a node as a class is there, and does not accept the node. -/
def NotAcceptedAs (r : Registry) (m : Node) (c : ClassId) : Prop :=
  ∃ v, ViewIs r (some m) (.ofClass c) (some v) ∧
    Finds (fun limit => isAssignableFrom limit r r (some v) (some m)) false

/-- Two classes that are not accepted by their views, in which no wildcard is met. -/
theorem view_not_isAssignableFrom :
    declaringBounds.ExtendsBase ∧ declaringBounds.AcyclicInheritance ∧
      declaringBounds.NamedInheritance ∧
      (∀ c ∈ [⟨38⟩, ⟨39⟩], SelfComparable declaringBounds (.ofClass c) ∧
        ∀ w, ¬BoundsAre declaringBounds (.ofClass c) (some w)) ∧
      NotAcceptedAs declaringBounds (.ofClass ⟨38⟩) ⟨37⟩ ∧
      NotAcceptedAs declaringBounds (.ofClass ⟨39⟩) Bootstrap.wellKnown.list := by
  have hplain : ∀ c ∈ [⟨38⟩, ⟨39⟩], declaringBounds.typeParameters c = [] := by decide +kernel
  refine ⟨((extendsBase_bootstrap.push _).push _).push _,
    acyclicInheritance_of_supertypesFirst (by decide +kernel),
    namedInheritance_of_check (by decide +kernel), fun c hc => ⟨?_, fun w hw => ?_⟩,
    ⟨_, .intro 4 rfl, .intro 12 rfl⟩, ⟨_, .intro 6 rfl, .intro 20 rfl⟩⟩
  · have hargs : GenericsAre declaringBounds (.ofClass c) [] :=
      (genericsAre_plain_iff ..).mpr (by simp [hplain c hc, Erasure.asClass?])
    exact selfComparable_of_classes rfl hargs (by simp)
  · simpa using hw.unique (boundsAre_of_head? rfl)

end Node

end TypeConversion
