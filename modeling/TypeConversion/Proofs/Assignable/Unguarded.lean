import TypeConversion.Proofs.Assignable.Inversion

/-!
# Comparisons without their guard

The guard makes a comparison hold that looks like one that was made before.  `Holds` is what a
comparison comes to by itself, when nothing is remembered.  What holds by itself is always found to
hold; the other way round, what is found to hold does so by itself unless somewhere below a
comparison was skipped that fails by itself.

**Results**

* `Holds.answers`: what holds by itself is found to hold under every guard;
* `holdsBare_iff_of_answers`: what is found to hold does so by itself if no failing comparison is
  skipped below it;
* `decides_true_iff`: a check succeeds because the comparison holds or because of its guard.
-/

namespace TypeConversion

namespace Node

open Walk

variable (r : Registry)

/-- A guard that remembers nothing, inside type arguments or at the top. -/
def bareGuard (inside : Bool) : Option Guard := if inside then some [] else none

/-- What holds of two nodes when nothing is remembered. -/
inductive Holds : Bool → Option Node → Option Node → Prop
  | decided {inside : Bool} {n other : Node}
      (hplan : Planned r n other (bareGuard inside) (.decided true)) :
      Holds inside (some n) (some other)
  | components {inside : Bool} {n other : Node} {c otherComponent : Option Node}
      (hplan : Planned r n other (bareGuard inside) (.components c otherComponent))
      (hcomponents : Holds false c otherComponent) : Holds inside (some n) (some other)
  | bounds {inside : Bool} {n other : Node} {kind : WildcardKind} {bounds types : List Node}
      (hplan : Planned r n other (bareGuard inside) (.bounds kind bounds types))
      (hbounds : ∀ b ∈ bounds, ∀ t ∈ types,
        Holds false (boundComparison kind b t).ours (boundComparison kind b t).theirs) :
      Holds inside (some n) (some other)
  | arguments {inside : Bool} {n other : Node} {pairs : List (Option Node × Option Node)}
      (hplan : Planned r n other (bareGuard inside) (.arguments pairs))
      (hpairs : ∀ p ∈ pairs, Holds true p.1 p.2) : Holds inside (some n) (some other)

/-- What a plan comes to when nothing is remembered. -/
def Plan.Holds : Plan → Prop
  | .decided holds => holds = true
  | .components c otherComponent => Node.Holds r false c otherComponent
  | .bounds kind ours theirs => ∀ b ∈ ours, ∀ t ∈ theirs,
      Node.Holds r false (boundComparison kind b t).ours (boundComparison kind b t).theirs
  | .arguments pairs => ∀ p ∈ pairs, Node.Holds r true p.1 p.2

namespace Comparison

/-- A comparison that holds when nothing is remembered. -/
def HoldsBare (c : Comparison) : Prop := Holds r c.guard.isSome c.ours c.theirs

/-- A comparison that is not made because the guard remembers it. -/
def Skipped (c : Comparison) : Prop :=
  ∃ n other, c.ours = some n ∧ c.theirs = some other ∧ ArrayIs r n false ∧
    Remembers c.guard n other

/-- A comparison below which another is skipped although it fails by itself. -/
def SkipsFailure (c : Comparison) : Prop :=
  ∃ d, Relation.ReflTransGen (Opens r) c d ∧ d.Skipped r ∧ ¬d.HoldsBare r

end Comparison

variable {r}

/-! ## Plans under other guards -/

@[simp] theorem isSome_bareGuard (inside : Bool) : (bareGuard inside).isSome = inside := by
  cases inside <;> rfl

@[simp] theorem not_remembers_bareGuard (inside : Bool) (n other : Node) :
    ¬Remembers (bareGuard inside) n other := by
  cases inside <;> simp [Remembers, bareGuard]

section

variable {n other : Node} {guard guard' : Option Guard}

theorem Meets.congr_guard {side : OurSide} {e : Erasure} (h : Meets r n other guard side e)
    (hnew : ¬Remembers guard' n other) (hinside : guard'.isSome = guard.isSome) :
    Meets r n other guard' side e :=
  { h with isNew := hnew, side := hinside ▸ h.side }

/-- A plan depends on the guard only by whether there is one, unless the comparison is skipped. -/
theorem Planned.congr_guard {p : Plan} (h : Planned r n other guard p)
    (hinside : guard'.isSome = guard.isSome) (hnew : ArrayIs r n false → ¬Remembers guard n other)
    (hnew' : ArrayIs r n false → ¬Remembers guard' n other) : Planned r n other guard' p := by
  cases h with
  | components harray hother hc hc' => exact .components harray hother hc hc'
  | noArray harray hother => exact .noArray harray hother
  | remembered harray h => exact (hnew harray h).elim
  | wildcards harray _ hours htheirs hkind =>
    exact .wildcards harray (hnew' harray) hours htheirs hkind
  | otherKind harray _ hours htheirs hkind =>
    exact .otherKind harray (hnew' harray) hours htheirs hkind
  | theirWildcard harray _ hours htheirs => exact .theirWildcard harray (hnew' harray) hours htheirs
  | ourWildcard harray _ hours htheirs => exact .ourWildcard harray (hnew' harray) hours htheirs
  | refused hmeets hadmits =>
    exact .refused (hmeets.congr_guard (hnew' hmeets.noArray) hinside) hadmits
  | admitted hmeets hadmits hargs =>
    exact .admitted (hmeets.congr_guard (hnew' hmeets.noArray) hinside) hadmits hargs
  | otherLength hmeets hadmits hargs hours htheirs hlength =>
    exact .otherLength (hmeets.congr_guard (hnew' hmeets.noArray) hinside) hadmits hargs hours
      htheirs hlength
  | arguments hmeets hadmits hargs hours htheirs hlength =>
    exact .arguments (hmeets.congr_guard (hnew' hmeets.noArray) hinside) hadmits hargs hours htheirs
      hlength

/-- A comparison is skipped, or its plan is the one by itself. -/
theorem Planned.skipped_or_bare {p : Plan} (h : Planned r n other guard p) :
    (Comparison.mk (some n) (some other) guard).Skipped r ∧ p = .decided true ∨
      Planned r n other (bareGuard guard.isSome) p := by
  by_cases hskip : ArrayIs r n false ∧ Remembers guard n other
  · have hremembered : Planned r n other guard (.decided true) := .remembered hskip.1 hskip.2
    exact .inl ⟨⟨n, other, rfl, rfl, hskip⟩, h.planIs.unique hremembered.planIs⟩
  · exact .inr (h.congr_guard (by simp) (fun harray hr => hskip ⟨harray, hr⟩) fun _ => by simp)

/-- By itself a comparison has the plan that it has under a guard that does not skip it. -/
theorem Planned.of_bare {p : Plan} {inside : Bool} (h : Planned r n other (bareGuard inside) p)
    (hinside : guard.isSome = inside)
    (hskip : ¬(Comparison.mk (some n) (some other) guard).Skipped r) : Planned r n other guard p :=
  h.congr_guard (by simpa using hinside) (fun _ => by simp)
    fun harray hr => hskip ⟨n, other, rfl, rfl, harray, hr⟩

/-- A comparison that is skipped is found to hold, and others if their plan is. -/
theorem exists_answers_of_bare {p : Plan} {inside : Bool}
    (h : Planned r n other (bareGuard inside) p) (hinside : guard.isSome = inside)
    (hcarry : ∃ after, Finds (fun limit => carryOut r r limit n other guard p) (true, after)) :
    ∃ after, (Comparison.mk (some n) (some other) guard).Answers r true after := by
  by_cases hskip : (Comparison.mk (some n) (some other) guard).Skipped r
  · obtain ⟨m, otherArg, hm, hother, harray, hr⟩ := hskip
    obtain rfl := Option.some.inj hm
    obtain rfl := Option.some.inj hother
    exact ⟨guard, ((Planned.remembered harray hr).answers_iff _).mpr
      ((finds_carryOut_decided_iff ..).mpr ⟨rfl, rfl⟩)⟩
  · obtain ⟨after, hcarry⟩ := hcarry
    exact ⟨after, ((h.of_bare hinside hskip).answers_iff _).mpr hcarry⟩

/-- Two nodes hold by themselves if their plan does. -/
theorem Planned.holds_iff {p : Plan} {inside : Bool}
    (h : Planned r n other (bareGuard inside) p) :
    Holds r inside (some n) (some other) ↔ p.Holds r := by
  constructor
  · intro hholds
    cases hholds with
    | decided hplan =>
      cases h.planIs.unique hplan.planIs
      rfl
    | components hplan hcomponents =>
      cases h.planIs.unique hplan.planIs
      exact hcomponents
    | bounds hplan hbounds =>
      cases h.planIs.unique hplan.planIs
      exact hbounds
    | arguments hplan hpairs =>
      cases h.planIs.unique hplan.planIs
      exact hpairs
  · intro hholds
    cases p with
    | decided holds =>
      obtain rfl : holds = true := hholds
      exact .decided h
    | components c otherComponent => exact .components h hholds
    | bounds kind bounds types => exact .bounds h hholds
    | arguments pairs => exact .arguments h hholds

end

/-! ## What holds by itself is found to hold -/

/-- What holds by itself is found to hold under every guard. -/
theorem Holds.answers {inside : Bool} {n other : Option Node} (h : Holds r inside n other)
    {guard : Option Guard} (hguard : guard.isSome = inside) :
    ∃ after, (Comparison.mk n other guard).Answers r true after := by
  induction h generalizing guard with
  | decided hplan =>
    exact exists_answers_of_bare hplan hguard
      ⟨guard, (finds_carryOut_decided_iff ..).mpr ⟨rfl, rfl⟩⟩
  | components hplan _ ih =>
    exact exists_answers_of_bare hplan hguard
      ⟨guard, (finds_carryOut_components_iff ..).mpr ⟨ih rfl, rfl⟩⟩
  | @bounds inside n other kind bounds types hplan _ ih =>
    have hall : ∀ b ∈ bounds, ∀ t ∈ types, Accepts r kind b t := by
      intro b hb t ht
      cases kind <;> exact ih b hb t ht rfl
    exact exists_answers_of_bare hplan hguard
      ⟨guard, (finds_carryOut_bounds_iff ..).mpr ⟨(finds_acceptsAll_true_iff ..).mpr hall, rfl⟩⟩
  | @arguments inside n other pairs hplan _ ih =>
    have hpair : ∀ p ∈ pairs, ∀ guard : Guard, ∃ after,
        (Comparison.mk p.1 p.2 (some guard)).Answers r true after := fun p hp _ => ih p hp rfl
    exact exists_answers_of_bare hplan hguard (exists_passes hpair _)

/-- What holds by itself opens only comparisons that do. -/
theorem Comparison.HoldsBare.opens {c d : Comparison} (h : c.HoldsBare r) (hopens : Opens r c d) :
    d.HoldsBare r := by
  have hbare : ∀ {n other guard p}, PlanIs r n other guard p → p ≠ .decided true →
      (Comparison.mk (some n) (some other) guard).HoldsBare r → p.Holds r := by
    intro n other guard p hplan hne h
    rcases (planned_of_planIs hplan).skipped_or_bare with ⟨-, heq⟩ | hbare
    · exact (hne heq).elim
    · exact hbare.holds_iff.mp h
  cases hopens with
  | components hplan => exact hbare hplan (by simp) h
  | @bounds n other guard kind before after types types' bound type hplan _ _ =>
    have hholds := hbare hplan (by simp) h bound (by simp) type (by simp)
    cases kind <;> exact hholds
  | @arguments n other guard reached before after arg otherArg hplan hbefore =>
    obtain ⟨reached, rfl⟩ := hbefore.exists_guard
    exact hbare hplan (by simp) h (arg, otherArg) (by simp)

/-- Below what holds by itself nothing is skipped that fails. -/
theorem Comparison.HoldsBare.not_skipsFailure {c : Comparison} (h : c.HoldsBare r) :
    ¬c.SkipsFailure r := by
  rintro ⟨d, hreach, -, hfails⟩
  have hholds : d.HoldsBare r := by
    clear hfails
    induction hreach with
    | refl => exact h
    | tail _ hopens ih => exact ih.opens hopens
  exact hfails hholds

/-! ## What is found to hold does so by itself -/

theorem Comparison.SkipsFailure.of_opens {c d : Comparison} (hopens : Opens r c d)
    (h : d.SkipsFailure r) : c.SkipsFailure r := by
  obtain ⟨e, hreach, h⟩ := h
  exact ⟨e, .head hopens hreach, h⟩

/-- A comparison that was opened and found to hold was so under a smaller limit. -/
theorem check_of_opens {limit : Nat} {c d : Comparison} (hends : (c.check r limit).isSome)
    (hopens : Opens r c d) {after : Option Guard} (h : d.Answers r true after) :
    ∃ l < limit, d.check r l = some (true, after) := by
  obtain ⟨l, hl, hsome⟩ := exists_check_of_opens hends hopens
  obtain ⟨answer, hanswer⟩ := Option.isSome_iff_exists.mp hsome
  obtain rfl := h.eq_of_some (check_steady d) hanswer
  exact ⟨l, hl, hanswer⟩

/--
What is found to hold does so by itself, if nothing that fails is skipped below it.  The induction
is on the limit, under which everything that is opened ends earlier.
-/
theorem holdsBare_of_check {limit : Nat} {c : Comparison} {after : Option Guard}
    (h : c.check r limit = some (true, after)) (hskips : ¬c.SkipsFailure r) : c.HoldsBare r := by
  induction limit using Nat.strong_induction_on generalizing c after with
  | _ limit ih =>
  have hends : (c.check r limit).isSome := by rw [h]; rfl
  have hopened : ∀ d after, Opens r c d → d.Answers r true after → d.HoldsBare r := by
    intro d after hopens hanswers
    obtain ⟨l, hl, hd⟩ := check_of_opens hends hopens hanswers
    exact ih l hl hd fun hd => hskips (.of_opens hopens hd)
  rcases c with ⟨n, other, guard⟩
  have hanswers : (Comparison.mk n other guard).Answers r true after := .intro limit h
  cases n with
  | none => simpa using ((Comparison.answers_of_missing (.inl rfl) ..).mp hanswers).1
  | some n =>
    cases other with
    | none => simpa using ((Comparison.answers_of_missing (.inr rfl) ..).mp hanswers).1
    | some other =>
      obtain ⟨p, hplan, hcarry⟩ := (Comparison.answers_iff ..).mp hanswers
      rcases (planned_of_planIs hplan).skipped_or_bare with ⟨hskip, -⟩ | hbare
      · by_contra hfails
        exact hskips ⟨_, .refl, hskip, hfails⟩
      refine hbare.holds_iff.mpr ?_
      cases p with
      | decided holds => exact ((finds_carryOut_decided_iff ..).mp hcarry).1.symm
      | components c otherComponent =>
        obtain ⟨⟨reached, hfirst⟩, -⟩ := (finds_carryOut_components_iff ..).mp hcarry
        exact hopened ⟨c, otherComponent, none⟩ reached (.components hplan) hfirst
      | bounds kind bounds types =>
        have hall := (finds_acceptsAll_true_iff ..).mp ((finds_carryOut_bounds_iff ..).mp hcarry).1
        intro b hb t ht
        obtain ⟨before, rest, rfl⟩ := List.append_of_mem hb
        obtain ⟨types, types', rfl⟩ := List.append_of_mem ht
        obtain ⟨reached, haccepts⟩ := hall b hb t ht
        have hopens : Opens r _ (boundComparison kind b t) :=
          .bounds hplan (fun b' hb' => hall b' (by simp [hb'])) fun t' ht' =>
            hall b hb t' (by simp [ht'])
        have hholds := hopened _ reached hopens haccepts
        cases kind <;> exact hholds
      | arguments pairs =>
        rintro ⟨arg, otherArg⟩ hp
        obtain ⟨before, rest, rfl⟩ := List.append_of_mem hp
        obtain ⟨reached, next, hbefore, hfirst, -⟩ := (passes_append_cons_iff ..).mp hcarry
        have hholds := hopened _ next (.arguments hplan hbefore) hfirst
        obtain ⟨reached, rfl⟩ := hbefore.exists_guard
        exact hholds

/-- A check that succeeds does so by what is compared or by its guard. -/
theorem holdsBare_iff_of_answers {c : Comparison} {after : Option Guard}
    (h : c.Answers r true after) : c.HoldsBare r ↔ ¬c.SkipsFailure r := by
  constructor
  · exact fun hholds => hholds.not_skipsFailure
  · intro hskips
    obtain ⟨limit, h⟩ := h
    exact holdsBare_of_check h hskips

/-- A comparison that is found to hold although one below it fails that was skipped. -/
def Comparison.PassesByGuard (r : Registry) (c : Comparison) : Prop :=
  c.Decides r true ∧ c.SkipsFailure r

/-- A check succeeds because the comparison holds by itself, or else because of its guard. -/
theorem decides_true_iff (c : Comparison) :
    c.Decides r true ↔ c.HoldsBare r ∨ c.PassesByGuard r := by
  constructor
  · rintro ⟨after, h⟩
    by_cases hskips : c.SkipsFailure r
    · exact .inr ⟨⟨after, h⟩, hskips⟩
    · exact .inl ((holdsBare_iff_of_answers h).mpr hskips)
  · rintro (h | h)
    · exact h.answers rfl
    · exact h.1

theorem Comparison.HoldsBare.not_passesByGuard {c : Comparison} (h : c.HoldsBare r) :
    ¬c.PassesByGuard r :=
  fun hpasses => h.not_skipsFailure hpasses.2

end Node

end TypeConversion
