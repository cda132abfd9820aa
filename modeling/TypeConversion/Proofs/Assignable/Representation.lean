import TypeConversion.Proofs.Assignable.Unguarded
import TypeConversion.Proofs.Substitution.Reading
import TypeConversion.Node.Site

/-!
# Nodes that read alike

Two nodes are the same type if they read as the same expression, in whatever contexts.  By itself a
comparison cannot tell such nodes apart.  The guard can: it remembers expressions and not the
contexts in which they are read, so that it may skip a comparison for a variable that stands for
something else by now.

**Results**

* `Same.planned`: nodes of the same types have the same plans;
* `Holds.same`: what holds of nodes by itself holds of all nodes of the same types;
* `Obtained.exists_reading`: nodes reached from closed expressions can be read;
* `readings_alike_iff`: a check answers alike for a node and for the expression that it reads as,
  unless exactly one of the two passes by its guard;
* `guard_confuses_readings`: a field that is accepted by its guard where what it reads as is not.
-/

namespace TypeConversion

namespace Node

open Walk TypeExpr

variable {r : Registry}

/-- Two nodes that read as the same expression. -/
def Same (r : Registry) (n n' : Node) : Prop := ∃ t, ReadsAs r n t ∧ ReadsAs r n' t

theorem Same.symm {n n' : Node} (h : Same r n n') : Same r n' n := by
  obtain ⟨t, ht, ht'⟩ := h
  exact ⟨t, ht', ht⟩

theorem same_ofExpr {t : TypeExpr} (ht : t.WellFormed r []) : Same r (ofExpr t) (ofExpr t) :=
  ⟨t, readsAs_written ht none, readsAs_written ht none⟩

/-! ## What is found of nodes of the same type -/

section

variable {n n' : Node}

theorem Same.arrayIs (h : Same r n n') {b : Bool} (hb : ArrayIs r n b) : ArrayIs r n' b := by
  obtain ⟨t, ht, ht'⟩ := h
  obtain ⟨found, hfound⟩ := exists_arrayIs_of_reads r t
  obtain rfl := hb.unique (hfound n ht)
  exact hfound n' ht'

theorem Same.resolvesTo (h : Same r n n') {e : Option Erasure} (he : ResolvesTo r n e) :
    ResolvesTo r n' e := by
  obtain ⟨t, ht, ht'⟩ := h
  obtain ⟨found, hfound⟩ := exists_resolvesTo_of_reads r t
  obtain rfl := Finds.unique (resolve_steady r n) he (hfound n ht)
  exact hfound n' ht'

theorem Same.componentIs (h : Same r n n') {c : Option Node} (hc : ComponentIs r n c) :
    ∃ c', ComponentIs r n' c' ∧ Option.Rel (Same r) c c' := by
  obtain ⟨t, ht, ht'⟩ := h
  obtain ⟨u, hu⟩ := exists_componentIs_of_reads r t
  obtain ⟨found, hfound, hreads⟩ := hu n ht
  obtain rfl := Finds.unique (componentType_steady r n) hc hfound
  obtain ⟨c', hc', hreads'⟩ := hu n' ht'
  refine ⟨c', hc', ?_⟩
  cases hreads with
  | none =>
    cases hreads'
    exact .none
  | some h =>
    cases hreads' with
    | some h' => exact .some ⟨_, h, h'⟩

/-- Arguments that read as the same expressions, one by one. -/
theorem forall₂_same_of_reads {args args' : List (Option Node)} {us : List TypeExpr}
    (h : List.Forall₂ (ArgumentReadsAs r) args us)
    (h' : List.Forall₂ (ArgumentReadsAs r) args' us) :
    List.Forall₂ (Option.Rel (Same r)) args args' := by
  induction h generalizing args' with
  | nil =>
    cases h'
    exact .nil
  | cons ha _ ih =>
    cases h' with
    | cons ha' h' =>
      obtain ⟨a, rfl, ha⟩ := ha
      obtain ⟨a', rfl, ha'⟩ := ha'
      exact .cons (.some ⟨_, ha, ha'⟩) (ih h')

theorem Same.genericsAre (h : Same r n n') {args : List (Option Node)}
    (hargs : GenericsAre r n args) :
    ∃ args', GenericsAre r n' args' ∧ List.Forall₂ (Option.Rel (Same r)) args args' := by
  obtain ⟨t, ht, ht'⟩ := h
  obtain ⟨us, hus⟩ := exists_genericsAre_of_reads r t
  obtain ⟨found, hfound, hreads⟩ := hus n ht
  obtain rfl := Finds.unique (generics_steady r n) hargs hfound
  obtain ⟨args', hargs', hreads'⟩ := hus n' ht'
  exact ⟨args', hargs', forall₂_same_of_reads hreads hreads'⟩

/-- Wildcards of the same kind whose bounds are the same types. -/
def SameBounds (r : Registry) (w w' : WildcardBounds) : Prop :=
  w.kind = w'.kind ∧ List.Forall₂ (Same r) w.bounds w'.bounds

theorem Same.boundsAre (hw : r.DeclaresWellFormed) (h : Same r n n')
    {found : Option WildcardBounds} (hfound : BoundsAre r n found) :
    ∃ found', BoundsAre r n' found' ∧ Option.Rel (SameBounds r) found found' := by
  obtain ⟨t, ht, ht'⟩ := h
  cases hwild : t.isWildcard with
  | false =>
    obtain rfl := hfound.unique (ht.boundsAre_none hwild)
    exact ⟨none, ht'.boundsAre_none hwild, .none⟩
  | true =>
    cases t with
    | wildcard upper lower =>
      obtain rfl := hfound.unique ht.boundsAre_wildcard
      refine ⟨_, ht'.boundsAre_wildcard, .some ?_⟩
      have hbounds := wellFormed_boundExprs hw.object ht.wellFormed.1 ht.wellFormed.2
      rw [SameBounds, boundsOf_eq, boundsOf_eq]
      refine ⟨rfl, ?_⟩
      rw [List.forall₂_map_left_iff, List.forall₂_map_right_iff, List.forall₂_same]
      intro b hb
      have hb := (allWellFormed_iff _).mp hbounds b hb
      exact ⟨b, readsAs_written hb _, readsAs_written hb _⟩
    | _ => simp [TypeExpr.isWildcard] at hwild

/-- What a class declares is the same type in all nodes of the same type. -/
theorem Same.declared (h : Same r n n') {e : Erasure} (he : ResolvesTo r n (some e)) {s : TypeExpr}
    (hs : s.WellFormed r (r.parametersOf e)) :
    Same r (within (some n) s) (within (some n') s) := by
  have he' := h.resolvesTo he
  obtain ⟨t, ht, ht'⟩ := h
  obtain ⟨σ, hσ⟩ := exists_variableIs_of_reads r t
  have hreads : ∀ m, ReadsAs r m t → ResolvesTo r m (some e) →
      ReadsAs r (within (some m) s) (s.instantiate fun v => some (σ v)) := by
    intro m hm hem
    choose! bound hbound hreads using hσ m hm e hem
    exact .intro hs bound σ hbound hreads
  exact ⟨_, hreads n ht he, hreads n' ht' he'⟩

end

/-! ## Views -/

section

variable (r) (R : Node → Node → Prop) (target : Erasure) (limit : Nat)

/-- A view that is found of a node within a limit is related to one of the other node. -/
def ViewsRelate (n n' : Option Node) : Prop :=
  ∀ view, asErasure r limit n target = some view →
    ∃ view', ViewIs r n' target view' ∧ Option.Rel R view view'

/-- The first view that is found among some nodes is related to that among the others. -/
def FirstViewsRelate (ns ns' : List Node) : Prop :=
  ∀ view, firstView r limit ns target = some view →
    ∃ view', FirstViewIs r ns' target view' ∧ Option.Rel R view view'

variable {r R target limit}

theorem viewsRelate_superNode {n n' : Node} {e : Erasure}
    (hview : ∀ m m', R m m' → ViewsRelate r R target limit (some m) (some m'))
    (hsuper : ∀ s, r.IsSupertype e s → R (within (some n) s) (within (some n') s)) :
    ViewsRelate r R target limit (superNode? r n e) (superNode? r n' e) := by
  intro view h
  cases ht : r.genericSuperclass e with
  | none =>
    obtain rfl : none = view := by simpa [superNode?, ht, asErasure] using h
    exact ⟨none, by simp [superNode?, ht, viewIs_none_iff], .none⟩
  | some t =>
    have h : asErasure r limit (some (within (some n) t)) target = some view := by
      simpa [superNode?, ht] using h
    simpa [superNode?, ht] using hview _ _ (hsuper t (.inl ht)) view h

theorem forall₂_interfaceNodes {n n' : Node} {e : Erasure}
    (hsuper : ∀ s, r.IsSupertype e s → R (within (some n) s) (within (some n') s)) :
    List.Forall₂ R (interfaceNodes r n e) (interfaceNodes r n' e) := by
  rw [interfaceNodes, interfaceNodes, List.forall₂_map_left_iff, List.forall₂_map_right_iff,
    List.forall₂_same]
  exact fun s hs => hsuper s (.inr hs)

/-- The views of two nodes are related if they are those of their supertypes. -/
theorem viewsRelate_succ {n n' : Node} (hn : R n n')
    (hresolves : ∀ e, ResolvesTo r n e → ResolvesTo r n' e)
    (hsuper : ∀ e s, ResolvesTo r n (some e) → r.IsSupertype e s →
      R (within (some n) s) (within (some n') s))
    (hview : ∀ m m', R m m' → ViewsRelate r R target limit (some m) (some m'))
    (hfirst : ∀ ns ns', List.Forall₂ R ns ns' → FirstViewsRelate r R target limit ns ns') :
    ViewsRelate r R target (limit + 1) (some n) (some n') := by
  intro view h
  rw [asErasure] at h
  obtain ⟨found, hfound, h⟩ := Option.bind_eq_some_iff.mp h
  have hfound : ResolvesTo r n found := .intro limit hfound
  have hfound' := hresolves found hfound
  cases found with
  | none =>
    obtain rfl := Option.some.inj h
    exact ⟨some n', (viewIs_some_iff ..).mpr ⟨none, hfound', rfl⟩, .some hn⟩
  | some e =>
    by_cases he : e = target
    · obtain rfl : some n = view := Option.some.inj (by simpa [he] using h)
      exact ⟨some n', (viewIs_some_iff ..).mpr ⟨some e, hfound', by simp [he]⟩, .some hn⟩
    · simp only [he, if_false] at h
      have hnodes := fun s => hsuper e s hfound
      obtain ⟨ns, hns, h⟩ := Option.bind_eq_some_iff.mp h
      obtain rfl := (finds_interfaces_iff hfound _).mp (.intro limit hns)
      obtain ⟨first, hf, h⟩ := Option.bind_eq_some_iff.mp h
      obtain ⟨first', hf', hrel⟩ := hfirst _ _ (forall₂_interfaceNodes hnodes) first hf
      cases hrel with
      | @some m m' hm =>
        obtain rfl := Option.some.inj h
        refine ⟨some m', (viewIs_some_iff ..).mpr ⟨some e, hfound', ?_⟩, .some hm⟩
        simp only [he, if_false]
        exact ⟨some m', hf', rfl⟩
      | none =>
        obtain ⟨s, hs, h⟩ := Option.bind_eq_some_iff.mp h
        obtain rfl := (finds_superType_iff hfound _).mp (.intro limit hs)
        obtain ⟨view', hview', hrel⟩ := viewsRelate_superNode hview hnodes view h
        refine ⟨view', (viewIs_some_iff ..).mpr ⟨some e, hfound', ?_⟩, hrel⟩
        simp only [he, if_false]
        exact ⟨none, hf', hview'⟩

theorem firstViewsRelate_succ {ns ns' : List Node} (hns : List.Forall₂ R ns ns')
    (hview : ∀ m m', R m m' → ViewsRelate r R target limit (some m) (some m'))
    (hfirst : ∀ ns ns', List.Forall₂ R ns ns' → FirstViewsRelate r R target limit ns ns') :
    FirstViewsRelate r R target (limit + 1) ns ns' := by
  intro view h
  cases hns with
  | nil =>
    obtain rfl : none = view := by simpa [firstView] using h
    exact ⟨none, (firstViewIs_nil_iff ..).mpr rfl, .none⟩
  | @cons n n' rest rest' hn hrest =>
    rw [firstView] at h
    obtain ⟨first, hf, h⟩ := Option.bind_eq_some_iff.mp h
    obtain ⟨first', hf', hrel⟩ := hview n n' hn first hf
    cases hrel with
    | @some m m' hm =>
      obtain rfl := Option.some.inj h
      exact ⟨some m', (firstViewIs_cons_iff ..).mpr ⟨some m', hf', rfl⟩, .some hm⟩
    | none =>
      obtain ⟨view', hview', hrel⟩ := hfirst rest rest' hrest view h
      exact ⟨view', (firstViewIs_cons_iff ..).mpr ⟨none, hf', hview'⟩, hrel⟩

/--
What relates nodes, settles their erasures and is handed on to their supertypes also relates their
views.
-/
theorem views_relate (hresolves : ∀ n n' e, R n n' → ResolvesTo r n e → ResolvesTo r n' e)
    (hsuper : ∀ n n' e s, R n n' → ResolvesTo r n (some e) → r.IsSupertype e s →
      R (within (some n) s) (within (some n') s)) (limit : Nat) :
    (∀ n n', R n n' → ViewsRelate r R target limit (some n) (some n')) ∧
    ∀ ns ns', List.Forall₂ R ns ns' → FirstViewsRelate r R target limit ns ns' := by
  induction limit with
  | zero =>
    refine ⟨fun n n' _ view h => by simp [asErasure] at h, fun ns ns' hns view h => ?_⟩
    cases hns with
    | nil =>
      obtain rfl : none = view := by simpa [firstView] using h
      exact ⟨none, (firstViewIs_nil_iff ..).mpr rfl, .none⟩
    | cons _ _ => simp [firstView] at h
  | succ limit ih =>
    obtain ⟨hview, hfirst⟩ := ih
    constructor
    · exact fun n n' hn => viewsRelate_succ hn (fun e => hresolves n n' e hn)
        (fun e s => hsuper n n' e s hn) hview hfirst
    · exact fun ns ns' hns => firstViewsRelate_succ hns hview hfirst

end

/-- Nodes of the same type have views of the same type. -/
theorem Same.viewIs (hw : r.DeclaresWellFormed) {n n' : Node} (h : Same r n n') {target : Erasure}
    {view : Option Node} (hview : ViewIs r (some n) target view) :
    ∃ view', ViewIs r (some n') target view' ∧ Option.Rel (Same r) view view' := by
  obtain ⟨limit, hview⟩ := hview
  have hviews : ∀ m m', Same r m m' → ViewsRelate r (Same r) target limit (some m) (some m') :=
    (views_relate (fun _ _ _ h => h.resolvesTo)
      (fun _ _ e s h he hs => h.declared he (hw.supertypes e s hs)) limit).1
  exact hviews n n' h view hview

/-- The views of a node that can be read can be read. -/
theorem Same.viewIs_self (hw : r.DeclaresWellFormed) {n view : Node} (h : Same r n n)
    {target : Erasure} (hview : ViewIs r (some n) target (some view)) : Same r view view := by
  obtain ⟨view', hview', hrel⟩ := h.viewIs hw hview
  obtain rfl := Finds.unique (asErasure_steady r _ _) hview hview'
  cases hrel with
  | some hsame => exact hsame

theorem Same.viewArgumentsAre (hw : r.DeclaresWellFormed) {n n' : Node} (h : Same r n n')
    {target : Erasure} {args : List (Option Node)} (hargs : ViewArgumentsAre r n target args) :
    ∃ args', ViewArgumentsAre r n' target args' ∧
      List.Forall₂ (Option.Rel (Same r)) args args' := by
  obtain ⟨view, hview, hargs⟩ := hargs
  obtain ⟨view', hview', hrel⟩ := h.viewIs hw hview
  cases hrel with
  | none =>
    obtain rfl : [] = args := Option.some.inj (finds_const_iff.mp hargs)
    exact ⟨[], ⟨none, hview', finds_const_iff.mpr rfl⟩, .nil⟩
  | @some m m' hm =>
    obtain ⟨args', hargs', hsame⟩ := hm.genericsAre hargs
    exact ⟨args', ⟨some m', hview', hargs'⟩, hsame⟩

/-! ## Nodes that can be read -/

/-- A node reached from closed expressions along supertypes, views, type arguments and fields. -/
inductive Obtained (r : Registry) : Node → Prop
  | closed {t : TypeExpr} (ht : t.WellFormed r []) : Obtained r (ofExpr t)
  | supertype {n : Node} {e : Erasure} {s : TypeExpr} (h : Obtained r n)
      (he : ResolvesTo r n (some e)) (hs : r.IsSupertype e s) : Obtained r (within (some n) s)
  | view {n view : Node} {target : Erasure} (h : Obtained r n)
      (hview : ViewIs r (some n) target (some view)) : Obtained r view
  | argument {n arg : Node} {args : List (Option Node)} (h : Obtained r n)
      (hargs : GenericsAre r n args) (harg : some arg ∈ args) : Obtained r arg
  | field {declaring implementation : ClassId} {name : String} {n owner : Node}
      (hparams : r.typeParameters implementation = [])
      (howner : Finds (fun limit => asClass r limit (some (ofClass implementation)) declaring)
        (some owner))
      (he : ResolvesTo r owner (some (.ofClass declaring)))
      (hn : Finds (fun limit => ofFieldIn r limit declaring name implementation) (.ok n)) :
      Obtained r n

theorem exists_mem_of_forall₂ {α β : Type} {R : α → β → Prop} {as : List α} {bs : List β}
    (h : List.Forall₂ R as bs) {b : β} (hb : b ∈ bs) : ∃ a ∈ as, R a b := by
  induction h with
  | nil => simp at hb
  | @cons a b' as bs hab _ ih =>
    rcases List.mem_cons.mp hb with rfl | hb
    · exact ⟨a, by simp, hab⟩
    · obtain ⟨a', ha', h⟩ := ih hb
      exact ⟨a', by simp [ha'], h⟩

/-- A node that occurs among nodes of the same types can be read. -/
theorem same_self_of_mem {as as' : List (Option Node)} {k : Node}
    (h : List.Forall₂ (Option.Rel (Same r)) as as') (hk : some k ∈ as') : Same r k k := by
  obtain ⟨_, -, hsame⟩ := exists_mem_of_forall₂ h hk
  cases hsame with
  | some hsame =>
    obtain ⟨u, -, hu⟩ := hsame
    exact ⟨u, hu, hu⟩

/-- The view of a class without type parameters can be read. -/
theorem owner_same (hw : r.DeclaresWellFormed) {declaring implementation : ClassId} {owner : Node}
    (hparams : r.typeParameters implementation = [])
    (howner : ViewIs r (some (ofClass implementation)) (.ofClass declaring) (some owner)) :
    Same r owner owner := by
  have hclosed : (TypeExpr.ofClass implementation).WellFormed r [] := hparams
  exact (same_ofExpr hclosed).viewIs_self hw howner

/-- The type of a field seen from a class is the declared one in the view of the class. -/
theorem field_of_ofFieldIn {declaring implementation : ClassId} {name : String} {n owner : Node}
    (howner : ViewIs r (some (ofClass implementation)) (.ofClass declaring) (some owner))
    (hn : Finds (fun limit => ofFieldIn r limit declaring name implementation) (.ok n)) :
    ∃ d, r.field? declaring name = some d ∧ n = within (some owner) d.type := by
  obtain ⟨limit, hn⟩ := hn
  simp only [ofFieldIn, Registry.fieldDeclaration] at hn
  cases hd : r.field? declaring name with
  | none => simp [hd] at hn
  | some d =>
    simp only [hd] at hn
    obtain ⟨m, hm, hn⟩ := Option.bind_eq_some_iff.mp hn
    obtain ⟨view, hview, hm⟩ := Option.bind_eq_some_iff.mp hm
    obtain rfl := Finds.unique (asErasure_steady r _ _) howner (.intro limit hview)
    obtain rfl := Option.some.inj hm
    exact ⟨d, rfl, (Except.ok.inj (Option.some.inj hn)).symm⟩

/-- Nodes that are reached from closed expressions can be read. -/
theorem Obtained.exists_reading (hw : r.DeclaresWellFormed) {n : Node} (h : Obtained r n) :
    ∃ t, ReadsAs r n t := by
  suffices hsame : Same r n n by
    obtain ⟨t, ht, -⟩ := hsame
    exact ⟨t, ht⟩
  induction h with
  | closed ht => exact same_ofExpr ht
  | @supertype n e s _ he hs ih => exact ih.declared he (hw.supertypes e s hs)
  | view _ hview ih => exact ih.viewIs_self hw hview
  | argument _ hargs harg ih =>
    obtain ⟨args', hargs', hrel⟩ := ih.genericsAre hargs
    obtain rfl := Finds.unique (generics_steady r _) hargs hargs'
    exact same_self_of_mem hrel harg
  | field hparams howner he hn =>
    obtain ⟨d, hd, rfl⟩ := field_of_ofFieldIn howner hn
    exact (owner_same hw hparams howner).declared he (hw.fields _ _ d hd)

/-! ## Comparisons of nodes of the same types -/

/-- Pairs of arguments of the same types. -/
def SamePair (r : Registry) (p p' : Option Node × Option Node) : Prop :=
  Option.Rel (Same r) p.1 p'.1 ∧ Option.Rel (Same r) p.2 p'.2

/-- Plans that go on with nodes of the same types. -/
inductive SamePlan (r : Registry) : Plan → Plan → Prop
  | decided (holds : Bool) : SamePlan r (.decided holds) (.decided holds)
  | components {c c' other other' : Option Node} (hc : Option.Rel (Same r) c c')
      (hother : Option.Rel (Same r) other other') :
      SamePlan r (.components c other) (.components c' other')
  | bounds {kind : WildcardKind} {bounds bounds' types types' : List Node}
      (hbounds : List.Forall₂ (Same r) bounds bounds')
      (htypes : List.Forall₂ (Same r) types types') :
      SamePlan r (.bounds kind bounds types) (.bounds kind bounds' types')
  | arguments {pairs pairs' : List (Option Node × Option Node)}
      (h : List.Forall₂ (SamePair r) pairs pairs') :
      SamePlan r (.arguments pairs) (.arguments pairs')

theorem forall₂_samePair_zip {as as' bs bs' : List (Option Node)}
    (ha : List.Forall₂ (Option.Rel (Same r)) as as')
    (hb : List.Forall₂ (Option.Rel (Same r)) bs bs') :
    List.Forall₂ (SamePair r) (as.zip bs) (as'.zip bs') := by
  induction ha generalizing bs bs' with
  | nil => exact .nil
  | cons hhead _ ih =>
    cases hb with
    | nil => exact .nil
    | cons hhead' hb => exact .cons ⟨hhead, hhead'⟩ (ih hb)

section

variable {n n' other other' : Node} {inside : Bool}

/-- Nodes of the same types meet by the same erasures. -/
theorem Same.meets (hw : r.DeclaresWellFormed) (hn : Same r n n') (hother : Same r other other')
    {side : OurSide} {e : Erasure} (h : Meets r n other (bareGuard inside) side e) :
    Meets r n' other' (bareGuard inside) side e := by
  obtain ⟨found, hours, hrel⟩ := hn.boundsAre hw h.ours
  cases hrel
  obtain ⟨found, htheirs, hrel⟩ := hother.boundsAre hw h.theirs
  cases hrel
  have hside : SideIs r n' other' (bareGuard inside).isSome side := by
    obtain ⟨t, ht, ht'⟩ := hn
    obtain ⟨c, hc⟩ := ht.exists_class h.noArray h.ours
    have hsame := ht.sideIs hc other (bareGuard inside).isSome
    obtain rfl := Finds.unique (ourSide_steady r r n other _) h.side hsame
    exact ht'.sideIs (Same.resolvesTo ⟨t, ht, ht'⟩ hc) other' _
  have herasure : ErasureIs r other' e := by
    obtain ⟨limit, he⟩ := h.erasure
    obtain ⟨found, hfound, he⟩ := Option.bind_eq_some_iff.mp he
    obtain rfl := Option.some.inj he
    exact erasureIs_of_resolvesTo (hother.resolvesTo (.intro limit hfound))
  exact ⟨hn.arrayIs h.noArray, by simp, hours, htheirs, hside, herasure⟩

/-- Nodes of the same types have plans that go on with nodes of the same types. -/
theorem Same.planned (hw : r.DeclaresWellFormed) (hn : Same r n n') (hother : Same r other other')
    {p : Plan} (h : Planned r n other (bareGuard inside) p) :
    ∃ p', Planned r n' other' (bareGuard inside) p' ∧ SamePlan r p p' := by
  have hnew : ¬Remembers (bareGuard inside) n' other' := by simp
  -- The same rule applies to both; what it looks at is found alike of nodes of the same types.
  cases h with
  | components harray harray' hc hc' =>
    obtain ⟨c, hc, hrel⟩ := hn.componentIs hc
    obtain ⟨otherComponent, hc', hrel'⟩ := hother.componentIs hc'
    exact ⟨_, .components (hn.arrayIs harray) (hother.arrayIs harray') hc hc',
      .components hrel hrel'⟩
  | noArray harray harray' =>
    exact ⟨_, .noArray (hn.arrayIs harray) (hother.arrayIs harray'), .decided _⟩
  | remembered _ h => exact (not_remembers_bareGuard inside n other h).elim
  | wildcards harray _ hours htheirs hkind =>
    obtain ⟨_, hours', hrel⟩ := hn.boundsAre hw hours
    obtain ⟨_, htheirs', hrel'⟩ := hother.boundsAre hw htheirs
    cases hrel with
    | some hrel =>
      cases hrel' with
      | some hrel' =>
        have hkind' := hrel.1.symm.trans (hkind.trans hrel'.1)
        refine ⟨_, .wildcards (hn.arrayIs harray) hnew hours' htheirs' hkind', ?_⟩
        rw [← hrel.1]
        exact .bounds hrel.2 hrel'.2
  | otherKind harray _ hours htheirs hkind =>
    obtain ⟨_, hours', hrel⟩ := hn.boundsAre hw hours
    obtain ⟨_, htheirs', hrel'⟩ := hother.boundsAre hw htheirs
    cases hrel with
    | some hrel =>
      cases hrel' with
      | some hrel' =>
        refine ⟨_, .otherKind (hn.arrayIs harray) hnew hours' htheirs' ?_, .decided _⟩
        rw [← hrel.1, ← hrel'.1]
        exact hkind
  | theirWildcard harray _ hours htheirs =>
    obtain ⟨_, hours', hrel⟩ := hn.boundsAre hw hours
    obtain ⟨_, htheirs', hrel'⟩ := hother.boundsAre hw htheirs
    cases hrel
    cases hrel'
    exact ⟨_, .theirWildcard (hn.arrayIs harray) hnew hours' htheirs', .decided _⟩
  | ourWildcard harray _ hours htheirs =>
    obtain ⟨_, hours', hrel⟩ := hn.boundsAre hw hours
    obtain ⟨_, htheirs', hrel'⟩ := hother.boundsAre hw htheirs
    cases hrel'
    cases hrel with
    | some hrel =>
      refine ⟨_, .ourWildcard (hn.arrayIs harray) hnew hours' htheirs', ?_⟩
      rw [← hrel.1]
      exact .bounds hrel.2 (.cons hother .nil)
  | refused hmeets hadmits => exact ⟨_, .refused (hn.meets hw hother hmeets) hadmits, .decided _⟩
  | admitted hmeets hadmits hargs =>
    exact ⟨_, .admitted (hn.meets hw hother hmeets) hadmits hargs, .decided _⟩
  | otherLength hmeets hadmits hargs hours htheirs hlength =>
    obtain ⟨args', hours', hrel⟩ := hn.genericsAre hours
    obtain ⟨otherArgs', htheirs', hrel'⟩ := hother.viewArgumentsAre hw htheirs
    refine ⟨_, .otherLength (hn.meets hw hother hmeets) hadmits hargs hours' htheirs' ?_,
      .decided _⟩
    rw [← hrel.length_eq, ← hrel'.length_eq]
    exact hlength
  | arguments hmeets hadmits hargs hours htheirs hlength =>
    obtain ⟨args', hours', hrel⟩ := hn.genericsAre hours
    obtain ⟨otherArgs', htheirs', hrel'⟩ := hother.viewArgumentsAre hw htheirs
    refine ⟨_, .arguments (hn.meets hw hother hmeets) hadmits hargs hours' htheirs' ?_,
      .arguments (forall₂_samePair_zip hrel hrel')⟩
    rw [← hrel.length_eq, ← hrel'.length_eq]
    exact hlength

end

/-- What holds of nodes by itself holds of all nodes of the same types. -/
theorem Holds.same (hw : r.DeclaresWellFormed) {inside : Bool} {n n' other other' : Option Node}
    (h : Holds r inside n other) (hn : Option.Rel (Same r) n n')
    (hother : Option.Rel (Same r) other other') : Holds r inside n' other' := by
  induction h generalizing n' other' with
  | decided hplan =>
    cases hn with
    | some hn =>
      cases hother with
      | some hother =>
        obtain ⟨_, hplan', hsame⟩ := hn.planned hw hother hplan
        cases hsame
        exact .decided hplan'
  | components hplan _ ih =>
    cases hn with
    | some hn =>
      cases hother with
      | some hother =>
        obtain ⟨_, hplan', hsame⟩ := hn.planned hw hother hplan
        cases hsame with
        | components hc hc' => exact .components hplan' (ih hc hc')
  | @bounds inside _ _ kind bounds types hplan _ ih =>
    cases hn with
    | some hn =>
      cases hother with
      | some hother =>
        obtain ⟨_, hplan', hsame⟩ := hn.planned hw hother hplan
        cases hsame with
        | bounds hbounds htypes =>
          refine .bounds hplan' fun b' hb' t' ht' => ?_
          obtain ⟨b, hb, hsame⟩ := exists_mem_of_forall₂ hbounds hb'
          obtain ⟨t, ht, hsame'⟩ := exists_mem_of_forall₂ htypes ht'
          cases kind with
          | upper => exact ih b hb t ht (.some hsame) (.some hsame')
          | lower => exact ih b hb t ht (.some hsame') (.some hsame)
  | arguments hplan _ ih =>
    cases hn with
    | some hn =>
      cases hother with
      | some hother =>
        obtain ⟨_, hplan', hsame⟩ := hn.planned hw hother hplan
        cases hsame with
        | arguments hpairs =>
          refine .arguments hplan' fun p' hp' => ?_
          obtain ⟨p, hp, hsame⟩ := exists_mem_of_forall₂ hpairs hp'
          exact ih p hp hsame.1 hsame.2

/-! ## Checks of nodes that read alike -/

/-- A type that holds of a node by itself holds of what the node reads as, and the other way. -/
theorem holdsBare_iff_of_reads (hw : r.DeclaresWellFormed) {t u : TypeExpr} (ht : t.WellFormed r [])
    {m : Node} (hm : ReadsAs r m u) :
    (Comparison.mk (some (ofExpr t)) (some m) none).HoldsBare r ↔
      (Comparison.mk (some (ofExpr t)) (some (ofExpr u)) none).HoldsBare r := by
  have htarget := same_ofExpr ht
  have hsame : Same r m (ofExpr u) := ⟨u, hm, readsAs_written hm.wellFormed none⟩
  exact ⟨fun h => h.same hw (.some htarget) (.some hsame),
    fun h => h.same hw (.some htarget) (.some hsame.symm)⟩

/-- What a check answers is whether the comparison holds by itself or passes by its guard. -/
theorem eq_true_iff_of_finds {n other : Node} {b : Bool}
    (h : Finds (fun limit => isAssignableFrom limit r r (some n) (some other)) b) :
    b = true ↔ (Comparison.mk (some n) (some other) none).HoldsBare r ∨
      (Comparison.mk (some n) (some other) none).PassesByGuard r := by
  rw [← decides_true_iff, ← finds_isAssignableFrom_iff]
  constructor
  · rintro rfl
    exact h
  · exact fun htrue => Finds.unique (isAssignableFrom_steady _ _) h htrue

/--
Nodes reached from closed expressions can be read, and a check of a closed type answers alike for a
node and for the expression that it reads as, unless exactly one of the two passes by its guard.
-/
theorem readings_alike_iff (hw : r.DeclaresWellFormed) {t : TypeExpr} (ht : t.WellFormed r [])
    (m : Node) :
    (Obtained r m → ∃ u, ReadsAs r m u) ∧
    ∀ u, ReadsAs r m u → ∀ b b',
      Finds (fun limit => isAssignableFrom limit r r (some (ofExpr t)) (some m)) b →
      Finds (fun limit => isAssignableFrom limit r r (some (ofExpr t)) (some (ofExpr u))) b' →
      (b = b' ↔
        ((Comparison.mk (some (ofExpr t)) (some m) none).PassesByGuard r ↔
          (Comparison.mk (some (ofExpr t)) (some (ofExpr u)) none).PassesByGuard r)) := by
  refine ⟨Obtained.exists_reading hw, fun u hm b b' hb hb' => ?_⟩
  have hholds := holdsBare_iff_of_reads hw ht hm
  rw [Bool.eq_iff_iff, eq_true_iff_of_finds hb, eq_true_iff_of_finds hb', ← hholds]
  by_cases hbare : (Comparison.mk (some (ofExpr t)) (some m) none).HoldsBare r
  · simp [hbare, hbare.not_passesByGuard, (hholds.mp hbare).not_passesByGuard]
  · simp [hbare]

/--
The bootstrap registry with `Pair<A, B>`, `Box<V>`, a class `Step<Z, W>` that implements
`Pair<Z, W>` and has a field of type `Step<String, Box<Z>>`, and a class `Start` that extends
`Step<Integer, String>`.
-/
def boxedSteps : Registry :=
  let c := Bootstrap.wellKnown
  let pair : ClassDef := { name := "Pair", kind := .interface, typeParams := [⟨18⟩, ⟨19⟩] }
  let box : ClassDef := { name := "Box", typeParams := [⟨20⟩] }
  let boxed : TypeExpr := .parameterized ⟨38⟩ [.typeVar ⟨21⟩] none
  let step : ClassDef :=
    { name := "Step", typeParams := [⟨21⟩, ⟨22⟩]
      interfaces := [.parameterized ⟨37⟩ [.typeVar ⟨21⟩, .typeVar ⟨22⟩] none]
      fields := [⟨"next", .parameterized ⟨39⟩ [.ofClass c.string, boxed] none, []⟩] }
  let start : ClassDef :=
    { name := "Start"
      superClass := some (.parameterized ⟨39⟩ [.ofClass c.integer, .ofClass c.string] none) }
  [pair, box, step, start].foldl .push
    (["A", "B", "V", "Z", "W"].foldl (fun r name => (r.addTypeParam ⟨name, []⟩).1) .bootstrap)

/-- The type `Pair<String, Box<String>>`. -/
def pairOfStrings : TypeExpr :=
  .parameterized ⟨37⟩ [.ofClass Bootstrap.wellKnown.string,
    .parameterized ⟨38⟩ [.ofClass Bootstrap.wellKnown.string] none] none

/-- The type `Step<Integer, String>` in which `Start` is seen. -/
def startStep : Node :=
  within (some (ofClass ⟨40⟩)) (.parameterized ⟨39⟩
    [.ofClass Bootstrap.wellKnown.integer, .ofClass Bootstrap.wellKnown.string] none)

/-- The field of `Start`, in which `Z` stands for `Integer`. -/
def nextStep : Node :=
  within (some startStep) (.parameterized ⟨39⟩ [.ofClass Bootstrap.wellKnown.string,
    .parameterized ⟨38⟩ [.typeVar ⟨21⟩] none] none)

/-- What the field of `Start` reads as: `Step<String, Box<Integer>>`. -/
def nextReading : TypeExpr :=
  .parameterized ⟨39⟩ [.ofClass Bootstrap.wellKnown.string,
    .parameterized ⟨38⟩ [.ofClass Bootstrap.wellKnown.integer] none] none

theorem boxedSteps_wellFormed : boxedSteps.DeclaresWellFormed :=
  Registry.declaresWellFormed_of_check (by decide)

theorem pairOfStrings_wellFormed : pairOfStrings.WellFormed boxedSteps [] := by decide

theorem nextStep_obtained : Obtained boxedSteps nextStep := by
  have howner : Finds (fun limit => asClass boxedSteps limit (some (ofClass ⟨40⟩)) ⟨39⟩)
      (some startStep) := .intro 4 (by decide)
  have hfield : Finds (fun limit => ofFieldIn boxedSteps limit ⟨39⟩ "next" ⟨40⟩) (.ok nextStep) :=
    .intro 4 (by decide)
  exact .field (by decide) howner (.intro 4 (by decide)) hfield

theorem nextStep_reads : ReadsAs boxedSteps nextStep nextReading := by
  have hexpr : nextStep.expr.WellFormed boxedSteps [⟨21⟩] := by decide
  have hinteger : (TypeExpr.ofClass Bootstrap.wellKnown.integer).WellFormed boxedSteps [] := by
    decide
  have hbound : VariableIs boxedSteps (some startStep) ⟨21⟩
      (some (within (some (ofClass ⟨40⟩)) (.ofClass Bootstrap.wellKnown.integer))) :=
    .intro 4 (by decide)
  exact .intro hexpr _ (fun _ => .ofClass Bootstrap.wellKnown.integer)
    (fun v hv => List.mem_singleton.mp hv ▸ hbound) fun _ _ => readsAs_written hinteger _

theorem nextStep_accepted : Finds (fun limit => isAssignableFrom limit boxedSteps boxedSteps
    (some (ofExpr pairOfStrings)) (some nextStep)) true :=
  .intro 9 (by decide)

theorem nextReading_refused : Finds (fun limit => isAssignableFrom limit boxedSteps boxedSteps
    (some (ofExpr pairOfStrings)) (some (ofExpr nextReading))) false :=
  .intro 9 (by decide)

/-- The field is accepted by its guard, which takes `String` to stand for `Z` from then on. -/
theorem guard_accepts_nextStep : boxedSteps.DeclaresWellFormed ∧
    pairOfStrings.WellFormed boxedSteps [] ∧ ReadsAs boxedSteps nextStep nextReading ∧
    (Comparison.mk (some (ofExpr pairOfStrings)) (some nextStep) none).PassesByGuard boxedSteps ∧
    ¬(Comparison.mk (some (ofExpr pairOfStrings)) (some (ofExpr nextReading)) none).PassesByGuard
      boxedSteps := by
  refine ⟨boxedSteps_wellFormed, pairOfStrings_wellFormed, nextStep_reads, ?_⟩
  have halike := (readings_alike_iff boxedSteps_wellFormed pairOfStrings_wellFormed nextStep).2
    nextReading nextStep_reads true false nextStep_accepted nextReading_refused
  have hrefused : ¬(Comparison.mk (some (ofExpr pairOfStrings)) (some (ofExpr nextReading))
      none).PassesByGuard boxedSteps := by
    intro hpasses
    have htrue := (finds_isAssignableFrom_iff ..).mpr hpasses.1
    simpa using Finds.unique (isAssignableFrom_steady _ _) nextReading_refused htrue
  simpa [hrefused] using halike

/-- A field is accepted that reads as a type that is refused. -/
theorem guard_confuses_readings : boxedSteps.DeclaresWellFormed ∧ boxedSteps.Acyclic ∧
    pairOfStrings.WellFormed boxedSteps [] ∧ Obtained boxedSteps nextStep ∧
    ReadsAs boxedSteps nextStep nextReading ∧
    Finds (fun limit => isAssignableFrom limit boxedSteps boxedSteps (some (ofExpr pairOfStrings))
      (some nextStep)) true ∧
    Finds (fun limit => isAssignableFrom limit boxedSteps boxedSteps (some (ofExpr pairOfStrings))
      (some (ofExpr nextReading))) false :=
  ⟨boxedSteps_wellFormed, Registry.acyclic_of_ordered (by decide +kernel) (by decide +kernel),
    pairOfStrings_wellFormed, nextStep_obtained, nextStep_reads, nextStep_accepted,
    nextReading_refused⟩

end Node

end TypeConversion
