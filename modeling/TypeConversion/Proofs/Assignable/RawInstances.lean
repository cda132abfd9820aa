import TypeConversion.Proofs.Assignable.SubstitutedBounds
import TypeConversion.Conversion.Descriptor

/-!
# Instances of raw classes

When a value is checked to be an instance of a class without arguments, the type parameters of the
class are compared with the arguments that the class of the value passes up.  If these are within
the declared bounds, the check asks no more than whether the classes are assignable.

**Results**

* `WithinBounds.exists_answers`: a raw class accepts a class that is assignable to it and passes up
  arguments within their bounds;
* `raw_isInstance_eq`: a value is an instance of a raw class exactly if its class is assignable to
  it, provided that the arguments passed up are within their bounds.
-/

namespace TypeConversion

namespace Node

open Walk Registry

variable {r : Registry}

/-! ## Instances -/

theorem typeParameters_object (h : r.ExtendsBase) :
    r.typeParameters r.wellKnown.object = [] := by
  have hobject : (bootstrap.class? Bootstrap.wellKnown.object).map (·.typeParams) = some [] := by
    decide
  obtain ⟨d, hd, hparams⟩ := Option.map_eq_some_iff.mp hobject
  rw [typeParameters, h.wellKnown, h.classes _ d hd]
  exact hparams

theorem argumentsIn_ofClass (c : ClassId) :
    (TypeExpr.ofClass c).argumentsIn r = (r.typeParameters c).map .typeVar :=
  rfl

/-- A raw class stands for itself, with its type parameters for arguments. -/
theorem standsAs_ofClass (c : ClassId) : StandsAs r (ofClass c) (.ofClass c) c := by
  have hhead : (ofClass c).expr.head? = some (.ofClass c) := rfl
  refine ⟨arrayIs_of_head? hhead, wildcardBoundsFrom_of_head? hhead,
    erasureIs_of_resolvesTo (resolvesTo_of_head? hhead), ofClass c, bindsNothing_ofClass c, ?_⟩
  rw [argumentsIn_ofClass, List.map_map]
  exact (genericsAre_plain_iff ..).mpr rfl

theorem WithinBounds.exists_bound {c : ClassId} {ms : List (Option Node)}
    (h : WithinBounds r c ms) : ∃ A, RespectsBounds r A ∧
      ((TypeExpr.ofClass c).argumentsIn r).length = ms.length ∧ none ∉ ms ∧
      ∀ a k, (a, some k) ∈ ((TypeExpr.ofClass c).argumentsIn r).zip ms → Matches r A true a k := by
  obtain ⟨A, ks, hA, rfl, hargs⟩ := h
  obtain ⟨hlength, hzip⟩ := List.forall₂_iff_zip.mp hargs
  refine ⟨A, hA, by simpa [argumentsIn_ofClass] using hlength, by simp, fun a k hmem => ?_⟩
  rw [argumentsIn_ofClass, List.zip_map] at hmem
  obtain ⟨⟨v, k'⟩, hpair, heq⟩ := List.mem_map.mp hmem
  obtain ⟨rfl, hk⟩ := Prod.mk.inj heq
  obtain rfl : k' = k := Option.some.inj hk
  exact .typeVar (hzip hpair)

/-- A raw class accepts only what is assignable to it. -/
theorem isAssignable_of_decides_ofClass {c : ClassId} {e : Erasure}
    (h : (Comparison.mk (some (ofClass c)) (some (ofErasure e)) none).Decides r true) :
    r.isAssignable (.ofClass c) e = true := by
  have hother : ResolvesTo r (ofErasure e) (some e) := resolvesTo_of_head? rfl
  have hbounds : BoundsAre r (ofErasure e) none := boundsAre_of_head? (e := e) rfl
  obtain ⟨after, hanswer⟩ := h
  obtain ⟨p, hplan, -⟩ := (Comparison.answers_iff ..).mp hanswer
  have hplanned := planned_of_planIs hplan
  rcases hplanned.cases_of_head? rfl hother
    (fun w hw => by simpa using hw.unique hbounds) with ⟨-, rfl⟩ | ⟨hholds, -⟩
  · exact absurd (hplanned.decides_decided_iff.mp ⟨after, hanswer⟩) (by decide)
  · exact hholds

/-- Where a raw class is compared with a class that is assignable to it and passes up arguments
within their bounds, the answer can only be that it accepts the class. -/
theorem WithinBounds.exists_answers (hobject : r.typeParameters r.wellKnown.object = [])
    {c : ClassId} {e : Erasure} {ms : List (Option Node)} (h : WithinBounds r c ms)
    (hassignable : r.isAssignable (.ofClass c) e = true)
    (hms : ViewArgumentsAre r (ofErasure e) (.ofClass c) ms) {limit : Nat}
    (hends : ((Comparison.mk (some (ofClass c)) (some (ofErasure e)) none).check r limit).isSome) :
    ∃ after, (Comparison.mk (some (ofClass c)) (some (ofErasure e)) none).Answers r true after := by
  obtain ⟨A, hA, hlength, hmissing, hargs⟩ := h.exists_bound
  have hadmits : OurSide.admits r ⟨.ofClass c, false, true⟩ e = true := by
    simpa [OurSide.admits] using hassignable
  have hside : SideIs r (ofClass c) (ofErasure e) false ⟨.ofClass c, false, true⟩ :=
    sideIs_of_head? rfl _ _
  have he : ErasureIs r (ofErasure e) e :=
    erasureIs_of_resolvesTo (resolvesTo_of_head? (e := e) rfl)
  exact (standsAs_ofClass c).exists_answers hside (boundsAre_of_head? (e := e) rfl) he hadmits hms
    hlength hmissing hends fun a k o hmem ho reached l _ hend =>
      exists_answers_of_matches hobject hA ho (hargs a k hmem) hend

/--
What is an instance of a raw class is of a class that is assignable to it.  The other way a value
whose class is assignable to the raw class is an instance of it, whenever the check ends, if the
arguments that its class passes up are within their declared bounds.
-/
theorem raw_isInstance_eq (hbase : r.ExtendsBase) (c : ClassId) (v : Value) {holds : Bool}
    (hends : Finds (fun limit => (TypeDescriptor.ofErasure r (.ofClass c)).isInstance limit
      (some v)) holds) :
    (holds = true → r.isAssignable (.ofClass c) (v.erasure r) = true) ∧
      ∀ ms, ViewArgumentsAre r (ofErasure (v.erasure r)) (.ofClass c) ms → WithinBounds r c ms →
        holds = r.isAssignable (.ofClass c) (v.erasure r) := by
  have hends : Finds (fun limit => isAssignableFrom limit r r (some (ofClass c))
      (some (ofErasure (v.erasure r)))) holds := hends
  have hdecides := (finds_isAssignableFrom_iff ..).mp hends
  have honly : holds = true → r.isAssignable (.ofClass c) (v.erasure r) = true := by
    rintro rfl
    exact isAssignable_of_decides_ofClass hdecides
  refine ⟨honly, fun ms hms hwithin => ?_⟩
  cases hassignable : r.isAssignable (.ofClass c) (v.erasure r) with
  | false => simpa [hassignable] using honly
  | true =>
    obtain ⟨after, hanswer⟩ := hdecides
    obtain ⟨limit, hlimit⟩ := id hanswer
    obtain ⟨after', htrue⟩ := hwithin.exists_answers (typeParameters_object hbase) hassignable hms
      (Option.isSome_iff_exists.mpr ⟨_, hlimit⟩)
    exact (hanswer.unique htrue).1

/-- The bootstrap registry with an enum `Color`, a class `Sorted<T>` whose parameter is bounded by
`Comparable<? super T>`, and a class `Ints` that extends `Sorted<Integer>`. -/
def sortedByOrder : Registry :=
  let wk := Bootstrap.wellKnown
  let applied (c : ClassId) (t : TypeExpr) : TypeExpr := .parameterized c [t] none
  let color : ClassDef :=
    { name := "Color"
      kind := .enumeration
      superClass := some (applied wk.enumClass (.ofClass ⟨37⟩)) }
  let sorted : ClassDef := { name := "Sorted", typeParams := [⟨18⟩] }
  let ints : ClassDef := { name := "Ints", superClass := some (applied ⟨38⟩ (.ofClass wk.integer)) }
  let bound : TypeExpr := applied wk.comparable (.wildcard [] [.typeVar ⟨18⟩])
  [color, sorted, ints].foldl .push (Registry.bootstrap.addTypeParam ⟨"T", [bound]⟩).1

theorem extendsBase_sortedByOrder : sortedByOrder.ExtendsBase :=
  (((extendsBase_bootstrap.addTypeParam _).push _).push _).push _

/-- In every context `Color` is an enum of itself. -/
theorem viewArgumentsAre_color (context : Option Node) :
    ViewArgumentsAre sortedByOrder (written (.ofClass ⟨37⟩) context)
      (.ofClass Bootstrap.wellKnown.enumClass)
      [some (written (.ofClass ⟨37⟩) (some (written (.ofClass ⟨37⟩) context)))] :=
  ⟨_, ⟨6, rfl⟩, 3, rfl⟩

theorem boundedBy_enumParameter {t : TypeExpr} (h : BoundedBy sortedByOrder ⟨1⟩ t) :
    t = .parameterized Bootstrap.wellKnown.enumClass [.typeVar ⟨1⟩] none := by
  have hbound : sortedByOrder.declaredBound? ⟨1⟩ =
      some (.parameterized Bootstrap.wellKnown.enumClass [.typeVar ⟨1⟩] none) := by decide
  cases h with
  | top h | next h _ => simp [hbound] at h
  | ofClass h _ => exact (Option.some.inj (hbound.symm.trans h)).symm

/-- The parameter of enums comes to be compared with `Color` only, where nothing is bound. -/
theorem compared_color {t : TypeExpr} {m : Node}
    (h : Compared sortedByOrder Bootstrap.wellKnown.enumClass
      [written (.ofClass ⟨37⟩) (some (ofClass ⟨37⟩))] t m) :
    (t = .typeVar ⟨1⟩ ∨
        t = .parameterized Bootstrap.wellKnown.enumClass [.typeVar ⟨1⟩] none) ∧
      ∃ o, BindsNothing sortedByOrder o ∧ m = written (.ofClass ⟨37⟩) (some o) := by
  induction h with
  | parameter h =>
    have hparams : sortedByOrder.typeParameters Bootstrap.wellKnown.enumClass = [⟨1⟩] := by decide
    obtain ⟨rfl, rfl⟩ : _ = (⟨1⟩ : TypeVarId) ∧ _ = _ := by simpa [hparams] using h
    exact ⟨.inl rfl, _, bindsNothing_ofClass _, rfl⟩
  | bound _ ht ih =>
    obtain ⟨hv, hm⟩ := ih
    obtain rfl : _ = (⟨1⟩ : TypeVarId) := by simpa using hv
    exact ⟨.inr (boundedBy_enumParameter ht), hm⟩
  | argument _ ht hms hk ih =>
    obtain ⟨rfl | rfl, o, ho, rfl⟩ := ih
    · simp [TypeExpr.head?] at ht
    · obtain rfl : Bootstrap.wellKnown.enumClass = _ := by
        simpa [TypeExpr.head?, Erasure.ofClass] using ht
      obtain rfl := hms.unique (viewArgumentsAre_color _)
      obtain ⟨rfl, rfl⟩ : _ = TypeExpr.typeVar ⟨1⟩ ∧ _ = _ := by
        simpa [TypeExpr.argumentsIn] using hk
      exact ⟨.inl rfl, _, ho.plain _, rfl⟩
  | component _ ht _ ih =>
    obtain ⟨rfl | rfl, -⟩ := ih <;> simp [TypeExpr.component?] at ht
  | upper _ _ _ _ ih => simp at ih

/-- `Color` holds of itself in every context. -/
theorem holds_color (context : Option Node) :
    Holds sortedByOrder true (some (ofClass ⟨37⟩)) (some (written (.ofClass ⟨37⟩) context)) := by
  have hhead : (written (.ofClass ⟨37⟩) context).expr.head? = some (.ofClass ⟨37⟩) := by
    rw [expr_written]
    rfl
  have hclass : ResolvesTo sortedByOrder (written (.ofClass ⟨37⟩) context)
      (some (.ofClass ⟨37⟩)) := resolvesTo_of_head? hhead
  have hplain (c : Option Node) : GenericsAre sortedByOrder (written (.ofClass ⟨37⟩) c) [] :=
    (genericsAre_plain_iff ..).mpr rfl
  exact (holds_iff_of_head? rfl).mpr ⟨[], [], boundsAre_of_head? hhead,
    ⟨_, erasureIs_of_resolvesTo hclass, admits_self ..⟩, hplain none,
    (viewArgumentsAre_iff_of_resolvesTo hclass _).mpr (hplain context), .nil⟩

/-- `Enum<Color>` holds of `Color`. -/
theorem holds_enumOfColor : Holds sortedByOrder false
    (some (ofExpr (.parameterized Bootstrap.wellKnown.enumClass [.ofClass ⟨37⟩] none)))
    (some (ofClass ⟨37⟩)) :=
  (holds_iff_of_head? rfl).mpr ⟨_, _, boundsAre_of_head? rfl,
    ⟨_, erasureIs_of_resolvesTo (resolvesTo_of_head? rfl), by decide⟩,
    (genericsAre_parameterized_iff ..).mpr rfl, viewArgumentsAre_color none,
    .cons (holds_color _) .nil⟩

/-- `Color` is within the bound that the parameter of enums has in terms of itself. -/
theorem withinBounds_color : WithinBounds sortedByOrder Bootstrap.wellKnown.enumClass
    [some (written (.ofClass ⟨37⟩) (some (ofClass ⟨37⟩)))] := by
  have hwf : sortedByOrder.DeclaresWellFormed := declaresWellFormed_of_check (by decide)
  have hcolor : (TypeExpr.ofClass ⟨37⟩).WellFormed sortedByOrder [] := by decide
  have hbound : sortedByOrder.declaredBound? ⟨1⟩ =
      some (.parameterized Bootstrap.wellKnown.enumClass [.typeVar ⟨1⟩] none) := by decide
  change WithinBounds _ _ ([written (.ofClass ⟨37⟩) (some (ofClass ⟨37⟩))].map some)
  refine withinBounds_of_substituted (fun _ => .ofClass ⟨37⟩) hwf rfl ?_ ?_ ?_
  · intro v k hk
    obtain ⟨-, o, -, rfl⟩ := compared_color hk
    exact readsAs_written hcolor _
  · intro v k hk
    obtain ⟨-, o, ho, rfl⟩ := compared_color hk
    exact (binds_iff ..).mpr (ho v)
  · intro v k hk
    obtain ⟨hv, -⟩ := compared_color hk
    obtain rfl : v = ⟨1⟩ := by simpa using hv
    refine ⟨_, .ofClass hbound rfl, .ofClass rfl id ?_, by decide, holds_enumOfColor⟩
    simpa [TypeExpr.arguments] using Substitutable.typeVar _

/-- A constant of an enum is an instance of the raw class of all enums. -/
theorem raw_isInstance_color :
    sortedByOrder.ExtendsBase ∧
      Finds (fun limit => (TypeDescriptor.ofErasure sortedByOrder
        (.ofClass Bootstrap.wellKnown.enumClass)).isInstance limit
        (some (.enumConstant ⟨37⟩ "RED"))) true ∧
      sortedByOrder.isAssignable (.ofClass Bootstrap.wellKnown.enumClass) (.ofClass ⟨37⟩) =
        true := by
  have hends : Finds (fun limit => (TypeDescriptor.ofErasure sortedByOrder
      (.ofClass Bootstrap.wellKnown.enumClass)).isInstance limit
      (some (.enumConstant ⟨37⟩ "RED"))) true := .intro 12 (by decide +kernel)
  obtain ⟨-, hequal⟩ := raw_isInstance_eq extendsBase_sortedByOrder _ _ hends
  have hviewed : ViewArgumentsAre sortedByOrder (ofErasure (.ofClass ⟨37⟩))
      (.ofClass Bootstrap.wellKnown.enumClass)
      [some (written (.ofClass ⟨37⟩) (some (ofClass ⟨37⟩)))] := viewArgumentsAre_color none
  exact ⟨extendsBase_sortedByOrder, hends, (hequal _ hviewed withinBounds_color).symm⟩

/-- A value of a class that extends `Sorted<Integer>` is no instance of the raw `Sorted`, although
integers are comparable to what integers are. -/
theorem raw_sorted_refuses_ints :
    sortedByOrder.ExtendsBase ∧ sortedByOrder.AcyclicInheritance ∧
      sortedByOrder.AcyclicBounds ∧ sortedByOrder.NamedInheritance ∧
      Finds (fun limit => isAssignableFrom limit sortedByOrder sortedByOrder
        (some (ofExpr (.parameterized Bootstrap.wellKnown.comparable
          [.wildcard [] [.ofClass Bootstrap.wellKnown.integer]] none)))
        (some (ofClass Bootstrap.wellKnown.integer))) true ∧
      Finds (fun limit => (TypeDescriptor.ofErasure sortedByOrder (.ofClass ⟨38⟩)).isInstance limit
        (some (.object ⟨39⟩ ⟨0, .text "x"⟩))) false ∧
      sortedByOrder.isAssignable (.ofClass ⟨38⟩) (.ofClass ⟨39⟩) = true :=
  ⟨extendsBase_sortedByOrder, acyclicInheritance_of_supertypesFirst (by decide +kernel),
    acyclicBounds_of_boundsAreClasses (by decide +kernel),
    namedInheritance_of_check (by decide +kernel), .intro 12 (by decide +kernel),
    .intro 12 (by decide +kernel), by decide +kernel⟩

end Node

end TypeConversion
