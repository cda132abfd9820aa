import TypeConversion.Proofs.Assignable.Branches

/-!
# What a comparison looks at

A comparison looks at arrays first, then at the guard, then at wildcards, and last at erasures and
type arguments.  `Planned` has one rule for each way in which this may come out: what is found as
the plan of a comparison is found by one of these rules, and what they give is found.

**Results**

* `planned_of_planIs`, `Planned.planIs`: the plans of a comparison are those given by the rules;
* `Planned.answers_iff`: what a comparison answers is what its plan comes to.
-/

namespace TypeConversion

namespace Node

open Walk

variable (r : Registry)

/-- The wildcard that a node is or resolves to, if there is one. -/
def BoundsAre (n : Node) (found : Option WildcardBounds) : Prop :=
  Finds (fun limit => wildcardBounds r limit n) found

/-- How our side of a comparison is taken. -/
def SideIs (n other : Node) (inside : Bool) (side : OurSide) : Prop :=
  Finds (fun limit => ourSide r r limit n other inside) side

/-- The erasure of a node, or else that of the top class. -/
def ErasureIs (n : Node) (e : Erasure) : Prop :=
  Finds (fun limit => resolveOr r limit n r.object) e

/-- The type arguments that a node has as an erasure. -/
def ViewArgumentsAre (n : Node) (target : Erasure) (args : List (Option Node)) : Prop :=
  ∃ view, ViewIs r (some n) target view ∧ Finds (fun limit => genericsOption r limit view) args

/-- The latest comparison of our expression was with theirs. -/
def Remembers (guard : Option Guard) (n other : Node) : Prop :=
  (guard.getD []).lookup n.expr = some other.expr

/-- Two nodes whose erasures come to be compared: no arrays, no wildcards, and not met before. -/
structure Meets (n other : Node) (guard : Option Guard) (side : OurSide) (e : Erasure) : Prop where
  noArray : ArrayIs r n false
  isNew : ¬Remembers guard n other
  ours : BoundsAre r n none
  theirs : BoundsAre r other none
  side : SideIs r n other guard.isSome side
  erasure : ErasureIs r other e

/-- The plan of a comparison by what is found of the two nodes. -/
inductive Planned (n other : Node) (guard : Option Guard) : Plan → Prop
  | components {c otherComponent : Option Node} (harray : ArrayIs r n true)
      (hother : ArrayIs r other true) (hc : ComponentIs r n c)
      (hc' : ComponentIs r other otherComponent) :
      Planned n other guard (.components c otherComponent)
  | noArray (harray : ArrayIs r n true) (hother : ArrayIs r other false) :
      Planned n other guard (.decided false)
  | remembered (harray : ArrayIs r n false) (h : Remembers guard n other) :
      Planned n other guard (.decided true)
  | wildcards {ours theirs : WildcardBounds} (harray : ArrayIs r n false)
      (hnew : ¬Remembers guard n other) (hours : BoundsAre r n (some ours))
      (htheirs : BoundsAre r other (some theirs)) (hkind : ours.kind = theirs.kind) :
      Planned n other guard (.bounds ours.kind ours.bounds theirs.bounds)
  | otherKind {ours theirs : WildcardBounds} (harray : ArrayIs r n false)
      (hnew : ¬Remembers guard n other) (hours : BoundsAre r n (some ours))
      (htheirs : BoundsAre r other (some theirs)) (hkind : ours.kind ≠ theirs.kind) :
      Planned n other guard (.decided false)
  | theirWildcard {theirs : WildcardBounds} (harray : ArrayIs r n false)
      (hnew : ¬Remembers guard n other) (hours : BoundsAre r n none)
      (htheirs : BoundsAre r other (some theirs)) :
      Planned n other guard (.decided false)
  | ourWildcard {ours : WildcardBounds} (harray : ArrayIs r n false)
      (hnew : ¬Remembers guard n other) (hours : BoundsAre r n (some ours))
      (htheirs : BoundsAre r other none) :
      Planned n other guard (.bounds ours.kind ours.bounds [other])
  | refused {side : OurSide} {e : Erasure} (hmeets : Meets r n other guard side e)
      (hadmits : side.admits r e = false) :
      Planned n other guard (.decided false)
  | admitted {side : OurSide} {e : Erasure} (hmeets : Meets r n other guard side e)
      (hadmits : side.admits r e = true) (hargs : side.withArguments = false) :
      Planned n other guard (.decided true)
  | otherLength {side : OurSide} {e : Erasure} {args otherArgs : List (Option Node)}
      (hmeets : Meets r n other guard side e) (hadmits : side.admits r e = true)
      (hargs : side.withArguments = true) (hours : GenericsAre r n args)
      (htheirs : ViewArgumentsAre r other side.erasure otherArgs)
      (hlength : args.length ≠ otherArgs.length) :
      Planned n other guard (.decided false)
  | arguments {side : OurSide} {e : Erasure} {args otherArgs : List (Option Node)}
      (hmeets : Meets r n other guard side e) (hadmits : side.admits r e = true)
      (hargs : side.withArguments = true) (hours : GenericsAre r n args)
      (htheirs : ViewArgumentsAre r other side.erasure otherArgs)
      (hlength : args.length = otherArgs.length) :
      Planned n other guard (.arguments (args.zip otherArgs))

variable {r}

theorem BoundsAre.unique {n : Node} {w w' : Option WildcardBounds} (h : BoundsAre r n w)
    (h' : BoundsAre r n w') : w = w' :=
  Finds.unique (wildcardBoundsFrom_steady n n) h h'

theorem ArrayIs.unique {n : Node} {b b' : Bool} (h : ArrayIs r n b) (h' : ArrayIs r n b') :
    b = b' :=
  Finds.unique (isArray_steady r n) h h'

theorem ErasureIs.unique {n : Node} {e e' : Erasure} (h : ErasureIs r n e)
    (h' : ErasureIs r n e') : e = e' :=
  Finds.unique (resolveOr_steady n r.object) h h'

theorem SideIs.unique {n other : Node} {inside : Bool} {side side' : OurSide}
    (h : SideIs r n other inside side) (h' : SideIs r n other inside side') : side = side' :=
  Finds.unique (ourSide_steady r r n other inside) h h'

theorem ViewArgumentsAre.unique {n : Node} {target : Erasure} {args args' : List (Option Node)}
    (h : ViewArgumentsAre r n target args) (h' : ViewArgumentsAre r n target args') :
    args = args' := by
  obtain ⟨view, hview, hargs⟩ := h
  obtain ⟨view', hview', hargs'⟩ := h'
  obtain rfl := hview.unique (asErasure_steady r _ _) hview'
  exact Finds.unique (genericsOption_steady r view) hargs hargs'

theorem remembers_singleton_iff (t u : TypeExpr) (n other : Node) :
    Remembers (some [(t, u)]) n other ↔ n.expr = t ∧ u = other.expr := by
  by_cases h : n.expr = t
  · simp [Remembers, h]
  · have hne : (n.expr == t) = false := beq_eq_false_iff_ne.mpr h
    simp [Remembers, List.lookup_cons, h, hne]

/-- What is found by the plan of the arguments. -/
theorem planned_of_argumentPlan {n other : Node} {guard : Option Guard} {p : Plan}
    (harray : ArrayIs r n false) (hnew : ¬Remembers guard n other)
    (hours : BoundsAre r n none) (htheirs : BoundsAre r other none)
    {limit : Nat} (h : argumentPlan r r limit n other guard.isSome = some p) :
    Planned r n other guard p := by
  obtain ⟨side, hside, h⟩ := Option.bind_eq_some_iff.mp h
  obtain ⟨e, he, h⟩ := Option.bind_eq_some_iff.mp h
  have hmeets : Meets r n other guard side e :=
    ⟨harray, hnew, hours, htheirs, .intro limit hside, .intro limit he⟩
  cases hadmits : side.admits r e with
  | false =>
    obtain rfl : Plan.decided false = p := by simpa [hadmits] using h
    exact .refused hmeets hadmits
  | true =>
    cases hargs : side.withArguments with
    | false =>
      obtain rfl : Plan.decided true = p := by simpa [hadmits, hargs] using h
      exact .admitted hmeets hadmits hargs
    | true =>
      simp only [hadmits, hargs, Bool.not_true, Bool.false_eq_true, if_false] at h
      obtain ⟨args, hgenerics, h⟩ := Option.bind_eq_some_iff.mp h
      obtain ⟨view, hview, h⟩ := Option.bind_eq_some_iff.mp h
      obtain ⟨otherArgs, hother, h⟩ := Option.bind_eq_some_iff.mp h
      have htheirs : ViewArgumentsAre r other side.erasure otherArgs :=
        ⟨view, .intro limit hview, .intro limit hother⟩
      split at h
      · rename_i hlength
        obtain rfl := Option.some.inj h
        exact .otherLength hmeets hadmits hargs (.intro limit hgenerics) htheirs hlength
      · rename_i hlength
        obtain rfl := Option.some.inj h
        exact .arguments hmeets hadmits hargs (.intro limit hgenerics) htheirs
          (not_not.mp hlength)

/-- What is found by a plan. -/
theorem planned_of_planIs {n other : Node} {guard : Option Guard} {p : Plan}
    (h : PlanIs r n other guard p) : Planned r n other guard p := by
  obtain ⟨limit, h⟩ := h
  obtain ⟨array, harray, h⟩ := Option.bind_eq_some_iff.mp h
  cases array with
  | true =>
    obtain ⟨otherArray, hother, h⟩ := Option.bind_eq_some_iff.mp h
    cases otherArray with
    | true =>
      obtain ⟨c, hc, h⟩ := Option.bind_eq_some_iff.mp h
      obtain ⟨otherComponent, hc', h⟩ := Option.bind_eq_some_iff.mp h
      obtain rfl := Option.some.inj h
      exact .components (.intro limit harray) (.intro limit hother) (.intro limit hc)
        (.intro limit hc')
    | false =>
      obtain rfl := Option.some.inj h
      exact .noArray (.intro limit harray) (.intro limit hother)
  | false =>
    have harray : ArrayIs r n false := .intro limit harray
    simp only [Bool.false_eq_true, if_false] at h
    split at h
    · rename_i hguard
      obtain rfl := Option.some.inj h
      exact .remembered harray hguard
    · rename_i hnew
      obtain ⟨ours, hours, h⟩ := Option.bind_eq_some_iff.mp h
      obtain ⟨theirs, htheirs, h⟩ := Option.bind_eq_some_iff.mp h
      have hours : BoundsAre r n ours := .intro limit hours
      have htheirs : BoundsAre r other theirs := .intro limit htheirs
      cases ours with
      | none =>
        cases theirs with
        | none => exact planned_of_argumentPlan harray hnew hours htheirs h
        | some theirs =>
          obtain rfl := Option.some.inj h
          exact .theirWildcard harray hnew hours htheirs
      | some ours =>
        cases theirs with
        | none =>
          obtain rfl := Option.some.inj h
          exact .ourWildcard harray hnew hours htheirs
        | some theirs =>
          obtain rfl := Option.some.inj h
          split
          · rename_i hkind
            exact .wildcards harray hnew hours htheirs hkind
          · rename_i hkind
            exact .otherKind harray hnew hours htheirs hkind

section

variable {n other : Node} {guard : Option Guard}

theorem ArrayIs.eventually {b : Bool} (h : ArrayIs r n b) :
    ∀ᶠ limit in Filter.atTop, isArray r limit n = some b :=
  Finds.eventually (isArray_steady r n) h

theorem BoundsAre.eventually {found : Option WildcardBounds} (h : BoundsAre r n found) :
    ∀ᶠ limit in Filter.atTop, wildcardBounds r limit n = some found :=
  Finds.eventually (wildcardBoundsFrom_steady n n) h

/-- Two nodes come to the plan of their wildcards if they are no arrays and not met before. -/
theorem planIs_of_boundsPlan (harray : ArrayIs r n false) (hnew : ¬Remembers guard n other)
    {ours theirs : Option WildcardBounds} (hours : BoundsAre r n ours)
    (htheirs : BoundsAre r other theirs) {p : Plan}
    (h : ∀ᶠ limit in Filter.atTop,
      boundsPlan r r limit n other guard.isSome ours theirs = some p) :
    PlanIs r n other guard p := by
  have hall := harray.eventually.and (hours.eventually.and (htheirs.eventually.and h))
  obtain ⟨limit, harray, hours, htheirs, h⟩ := hall.exists
  refine .intro limit ?_
  rw [Remembers] at hnew
  simp [plan, harray, hnew, hours, htheirs, h]

/-- Two nodes whose erasures are compared come to the plan of their arguments. -/
theorem Meets.planIs {side : OurSide} {e : Erasure} (hmeets : Meets r n other guard side e)
    {p : Plan}
    (h : ∀ᶠ limit in Filter.atTop,
      (if !side.admits r e then some (.decided false)
        else if !side.withArguments then some (.decided true)
        else do
          let args ← generics r limit n
          let view ← asErasure r limit (some other) side.erasure
          let otherArgs ← genericsOption r limit view
          if args.length ≠ otherArgs.length then some (.decided false)
          else some (.arguments (args.zip otherArgs)) : Walk Plan) = some p) :
    PlanIs r n other guard p := by
  refine planIs_of_boundsPlan hmeets.noArray hmeets.isNew hmeets.ours hmeets.theirs ?_
  have hside := Finds.eventually (ourSide_steady r r n other guard.isSome) hmeets.side
  have he := Finds.eventually (resolveOr_steady other r.object) hmeets.erasure
  filter_upwards [h, hside, he] with limit h hside he
  simp only [boundsPlan, argumentPlan, hside, he]
  exact h

/-- By every rule a plan is found. -/
theorem Planned.planIs {p : Plan} (h : Planned r n other guard p) : PlanIs r n other guard p := by
  have hsame : ∀ {p : Plan}, ∀ᶠ limit : Nat in Filter.atTop, some p = some p := by simp
  cases h with
  | @components c otherComponent harray hother hc hc' =>
    have hc := Finds.eventually (componentType_steady r n) hc
    have hc' := Finds.eventually (componentType_steady r other) hc'
    obtain ⟨limit, harray, hother, hc, hc'⟩ :=
      (harray.eventually.and (hother.eventually.and (hc.and hc'))).exists
    exact .intro limit (by simp [plan, harray, hother, hc, hc'])
  | noArray harray hother =>
    obtain ⟨limit, harray, hother⟩ := (harray.eventually.and hother.eventually).exists
    exact .intro limit (by simp [plan, harray, hother])
  | remembered harray h =>
    obtain ⟨limit, harray⟩ := harray.eventually.exists
    rw [Remembers] at h
    exact .intro limit (by simp [plan, harray, h])
  | wildcards harray hnew hours htheirs hkind =>
    refine planIs_of_boundsPlan harray hnew hours htheirs ?_
    simp [boundsPlan, hkind]
  | otherKind harray hnew hours htheirs hkind =>
    refine planIs_of_boundsPlan harray hnew hours htheirs ?_
    simp [boundsPlan, hkind]
  | theirWildcard harray hnew hours htheirs =>
    exact planIs_of_boundsPlan harray hnew hours htheirs hsame
  | ourWildcard harray hnew hours htheirs =>
    exact planIs_of_boundsPlan harray hnew hours htheirs hsame
  | refused hmeets hadmits => exact hmeets.planIs (by simp [hadmits])
  | admitted hmeets hadmits hargs => exact hmeets.planIs (by simp [hadmits, hargs])
  | otherLength hmeets hadmits hargs hours htheirs hlength =>
    obtain ⟨view, hview, htheirs⟩ := htheirs
    refine hmeets.planIs ?_
    filter_upwards [hours.eventually (generics_steady r n),
      hview.eventually (asErasure_steady r _ _), htheirs.eventually (genericsOption_steady r view)]
      with limit hours hview htheirs
    simp [hadmits, hargs, hours, hview, htheirs, hlength]
  | arguments hmeets hadmits hargs hours htheirs hlength =>
    obtain ⟨view, hview, htheirs⟩ := htheirs
    refine hmeets.planIs ?_
    filter_upwards [hours.eventually (generics_steady r n),
      hview.eventually (asErasure_steady r _ _), htheirs.eventually (genericsOption_steady r view)]
      with limit hours hview htheirs
    simp [hadmits, hargs, hours, hview, htheirs, hlength]

/-! ## What a comparison decides by its plan -/

variable {holds : Bool}

theorem Planned.answers_iff {p : Plan} (h : Planned r n other guard p) (after : Option Guard) :
    (Comparison.mk (some n) (some other) guard).Answers r holds after ↔
      Finds (fun limit => carryOut r r limit n other guard p) (holds, after) := by
  rw [Comparison.answers_iff]
  constructor
  · rintro ⟨q, hq, hcarry⟩
    obtain rfl := h.planIs.unique hq
    exact hcarry
  · intro hcarry
    exact ⟨p, h.planIs, hcarry⟩

/-- What is decided to fail is not found to hold. -/
theorem Planned.not_answers_true (h : Planned r n other guard (.decided false))
    (after : Option Guard) :
    ¬(Comparison.mk (some n) (some other) guard).Answers r true after := by
  rw [h.answers_iff, finds_carryOut_decided_iff]
  simp

theorem Planned.decides_decided_iff {decided : Bool}
    (h : Planned r n other guard (.decided decided)) :
    (Comparison.mk (some n) (some other) guard).Decides r holds ↔ holds = decided := by
  simp only [Comparison.Decides, h.answers_iff, finds_carryOut_decided_iff, exists_and_left,
    exists_eq, and_true]

theorem Planned.decides_components_iff {c otherComponent : Option Node}
    (h : Planned r n other guard (.components c otherComponent)) :
    (Comparison.mk (some n) (some other) guard).Decides r holds ↔
      (Comparison.mk c otherComponent none).Decides r holds := by
  rw [Comparison.Decides]
  simp only [h.answers_iff, finds_carryOut_components_iff, exists_and_left, exists_eq, and_true]

theorem Planned.decides_bounds_iff {kind : WildcardKind} {bounds types : List Node}
    (h : Planned r n other guard (.bounds kind bounds types)) :
    (Comparison.mk (some n) (some other) guard).Decides r holds ↔
      Finds (fun limit => acceptsAll limit r r kind bounds types) holds := by
  simp only [Comparison.Decides, h.answers_iff, finds_carryOut_bounds_iff, exists_and_left,
    exists_eq, and_true]

end

end Node

end TypeConversion
