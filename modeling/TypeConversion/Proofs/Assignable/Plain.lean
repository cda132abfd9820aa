import TypeConversion.Proofs.Assignable.Views
import TypeConversion.Proofs.Substitution.WellFormed

/-!
# Plain types against erasures

A class without type parameters, or an array of one, is checked against an erasure.  The check takes
the dimensions of the array from both sides, and compares what is left as if nothing had been around
it: primitives are boxed there.  Between erasures boxing is for the outside only.  So the two
relations differ where the elements of an array could only be boxed.

Apart from that they differ only where the search for a view of the other side does not end, or
where a declaration gives arguments to a class that has no parameters.

**Results**

* `isSubclass_eq_peel`, `isAssignable_eq_peel`: the relations of erasures without dimensions;
* `decides_peel_iff`, `decides_ofClass_iff`: the same for the check of a node;
* `isAssignableFromErasure_eq_iff`: where the two agree;
* `isAssignableFromErasure_boxes_elements`: an array whose elements are boxed.
-/

namespace TypeConversion

namespace Erasure

/-- What is left of an erasure if a number of dimensions is taken from it. -/
def peel? : Nat → Erasure → Option Erasure
  | 0, e => some e
  | dims + 1, e => e.component?.bind (peel? dims)

theorem eq_ofClass_of_dims {e : Erasure} (h : e.dims.toNat = 0) : e = .ofClass e.element := by
  obtain ⟨element, dims⟩ := e
  obtain rfl : dims = 0 := UInt8.toNat_inj.mp h
  rfl

theorem exists_component? {e : Erasure} {dims : Nat} (h : e.dims.toNat = dims + 1) :
    ∃ c, e.component? = some c ∧ c.dims.toNat = dims ∧ c.element = e.element := by
  have harray : e.isArray = true := (isArray_iff e).mpr (by omega)
  have hc : e.component? = some ⟨e.element, e.dims - 1⟩ := by simp [component?, harray]
  have hdims := toNat_dims_of_component? hc
  exact ⟨_, hc, by omega, rfl⟩

end Erasure

namespace Registry

variable {r : Registry}

/-! ## Erasures without their dimensions -/

/-- Different erasures of which one is a subclass of the other are no primitives. -/
theorem isPrimitive_of_isSubclass (hbase : r.ExtendsBase) {target source : Erasure}
    (h : r.isSubclass target source = true) (hne : target ≠ source) :
    r.isPrimitive target = false ∧ r.isPrimitive source = false := by
  have harray : ∀ {e : Erasure}, e.isArray = true → r.isPrimitive e = false := by
    intro e he
    simp [isPrimitive, hasKind, he]
  cases ht : target.isArray with
  | true =>
    cases hs : source.isArray with
    | true => exact ⟨harray ht, harray hs⟩
    | false => simp [not_isSubclass_of_array ht hs] at h
  | false =>
    cases hs : source.isArray with
    | false =>
      rcases (isSubclass_iff_of_classes ht hs).mp h with heq | ⟨htarget, hsource, -⟩
      · exact absurd heq hne
      · exact ⟨htarget, hsource⟩
    | true =>
      have hbootstrap : ∀ c ∈ [Bootstrap.wellKnown.object, Bootstrap.wellKnown.cloneable,
          Bootstrap.wellKnown.serializable], (bootstrap.class? c).isSome = true ∧
            bootstrap.isPrimitive (.ofClass c) = false := by
        decide +kernel
      obtain ⟨c, hc, rfl⟩ : ∃ c ∈ [Bootstrap.wellKnown.object, Bootstrap.wellKnown.cloneable,
          Bootstrap.wellKnown.serializable], target = .ofClass c := by
        rw [isSubclass_iff_of_array ht hs, object, hbase.wellKnown] at h
        simpa using h
      obtain ⟨hdeclared, hplain⟩ := hbootstrap c hc
      have hkind := hbase.hasKind_eq .primitive (ExtendsBase.isBase_of_isSome hdeclared)
      exact ⟨hkind.trans hplain, harray hs⟩

/-- Arrays are subclasses as their components are. -/
theorem isSubclass_eq_of_components (hbase : r.ExtendsBase) {target source t s : Erasure}
    (ht : target.component? = some t) (hs : source.component? = some s) :
    r.isSubclass target source = r.isSubclass t s := by
  rw [Bool.eq_iff_iff, isSubclass_arrays_iff ht hs]
  constructor
  · rintro (rfl | ⟨-, -, h⟩)
    · rw [Option.some.inj (ht.symm.trans hs)]
      exact isSubclass_self r s
    · exact h
  · intro h
    by_cases heq : t = s
    · subst heq
      exact .inl (Erasure.eq_of_component? ht hs)
    · obtain ⟨htarget, hsource⟩ := isPrimitive_of_isSubclass hbase h heq
      exact .inr ⟨htarget, hsource, h⟩

/-- Subclassing is that of the element and what is left of the other side. -/
theorem isSubclass_eq_peel (hbase : r.ExtendsBase) (target source : Erasure) :
    r.isSubclass target source =
      (source.peel? target.dims.toNat).any (r.isSubclass (.ofClass target.element)) := by
  induction hdims : target.dims.toNat generalizing target source with
  | zero =>
    rw [← Erasure.eq_ofClass_of_dims hdims]
    simp [Erasure.peel?]
  | succ dims ih =>
    obtain ⟨t, ht, htdims, helement⟩ := Erasure.exists_component? hdims
    cases hs : source.component? with
    | none =>
      have harray : target.isArray = true := (Erasure.isArray_iff _).mpr (by omega)
      simp [Erasure.peel?, hs,
        not_isSubclass_of_array harray ((Erasure.component?_eq_none_iff _).mp hs)]
    | some s =>
      rw [isSubclass_eq_of_components hbase ht hs, ih t s htdims, helement]
      simp [Erasure.peel?, hs]

/-- Nothing is boxed for an array. -/
theorem isAssignable_eq_isSubclass_of_array {target source : Erasure}
    (ht : target.isArray = true) : r.isAssignable target source = r.isSubclass target source := by
  have hprimitive : r.isPrimitive target = false := by simp [isPrimitive, hasKind, ht]
  rw [isAssignable, hprimitive]
  cases hs : r.isPrimitive source with
  | false => cases r.isSubclass target source <;> simp
  | true =>
    have hboxed := isArray_boxed r (isArray_of_hasKind hs)
    rw [not_isSubclass_of_array ht hboxed]
    cases r.isSubclass target source <;> simp

/-- Assignability is that of the element and what is left of the other side, but for an array
nothing is boxed. -/
theorem isAssignable_eq_peel (hbase : r.ExtendsBase) (target source : Erasure) :
    r.isAssignable target source = (source.peel? target.dims.toNat).any
      (if target.isArray then r.isSubclass (.ofClass target.element)
        else r.isAssignable (.ofClass target.element)) := by
  cases harray : target.isArray with
  | true =>
    rw [isAssignable_eq_isSubclass_of_array harray, isSubclass_eq_peel hbase]
    simp
  | false =>
    obtain ⟨c, rfl⟩ := exists_eq_ofClass harray
    simp [Erasure.peel?]

/-! ## Boxes -/

/-- What is unboxed is a box. -/
theorem exists_box_of_unboxed? {e p : Erasure} (h : r.unboxed? e = some p) :
    ∃ b ∈ r.wellKnown.boxes, p = .ofClass b.1 ∧ e = .ofClass b.2 := by
  obtain ⟨c, hc, h⟩ := Option.bind_eq_some_iff.mp h
  obtain ⟨b, hb, h⟩ := Option.bind_eq_some_iff.mp h
  have hbox : b.2 = c := by simpa using List.find?_some hb
  refine ⟨b, List.mem_of_find?_eq_some hb, (Option.some.inj h).symm, ?_⟩
  rw [hbox]
  exact Erasure.eq_ofClass_of_asClass? hc

/-- What is assignable only as boxed: a primitive and its box, or a primitive and something else. -/
theorem exists_box_of_isAssignable {target source : Erasure}
    (h : r.isAssignable target source = true) (hsub : r.isSubclass target source = false) :
    ∃ b ∈ r.wellKnown.boxes, (target = .ofClass b.1 ∧ source = .ofClass b.2) ∨
      (source = .ofClass b.1 ∧ source ≠ target) := by
  rw [isAssignable, hsub] at h
  simp only [Bool.false_eq_true, if_false] at h
  cases htarget : r.isPrimitive target with
  | true =>
    have hunboxed : r.unboxed? source = some target := by simpa [htarget] using h
    obtain ⟨b, hb, heq⟩ := exists_box_of_unboxed? hunboxed
    exact ⟨b, hb, .inl heq⟩
  | false =>
    obtain ⟨hsource, hboxed⟩ :
        r.isPrimitive source = true ∧ r.isSubclass target (r.boxed source) = true := by
      simpa [htarget] using h
    obtain ⟨c, hc⟩ := exists_eq_ofClass (isArray_boxed r (isArray_of_hasKind hsource))
    rcases ExtendsBase.eq_or_mem_boxes_of_boxed hc with heq | ⟨p, rfl, hmem⟩
    · rw [hc, ← heq, hsub] at hboxed
      exact absurd hboxed Bool.false_ne_true
    · refine ⟨(p, c), hmem, .inr ⟨rfl, ?_⟩⟩
      rintro rfl
      simp at hsub

/-- A primitive is not above its box. -/
theorem not_isBelow_of_mem_boxes {b : ClassId × ClassId} (hb : b ∈ Bootstrap.wellKnown.boxes) :
    IsBase (.ofClass b.2) ∧ ¬bootstrap.IsBelow (.ofClass b.2) (.ofClass b.1) := by
  have hbootstrap : ∀ b ∈ Bootstrap.wellKnown.boxes, (bootstrap.class? b.2).isSome = true ∧
      bootstrap.reaches (.ofClass b.1) bootstrap.searchSteps [.ofClass b.2] [] = false := by
    decide +kernel
  obtain ⟨hdeclared, hreaches⟩ := hbootstrap b hb
  refine ⟨ExtendsBase.isBase_of_isSome hdeclared, fun hbelow => ?_⟩
  rw [← reaches_iff bootstrap rfl, hreaches] at hbelow
  exact absurd hbelow Bool.false_ne_true

end Registry

namespace Node

open Walk Registry

variable {r : Registry}

theorem resolvesTo_ofErasure (e : Erasure) : ResolvesTo r (ofErasure e) (some e) :=
  resolvesTo_of_head? rfl

/-! ## Views of bootstrap classes -/

theorem firstViewIs_none {ns : List Node} {target : Erasure}
    (h : ∀ n ∈ ns, ViewIs r (some n) target none) : FirstViewIs r ns target none := by
  induction ns with
  | nil => exact (firstViewIs_nil_iff ..).mpr rfl
  | cons n rest ih =>
    exact (firstViewIs_cons_iff ..).mpr ⟨none, h n List.mem_cons_self,
      ih fun m hm => h m (List.mem_cons_of_mem _ hm)⟩

/-- Bootstrap classes are viewed as nothing that is not above them, whatever has been added. -/
theorem viewIs_none_of_isBase (hbase : r.ExtendsBase) {e target : Erasure} (he : IsBase e)
    (hnot : ¬bootstrap.IsBelow e target) {n : Node} (hn : ResolvesTo r n (some e)) :
    ViewIs r (some n) target none := by
  have hwf := (acyclicInheritance_of_supertypesFirst bootstrap_supertypesFirst).wellFounded
  induction e using hwf.induction generalizing n with
  | _ e ih =>
  have hne : e ≠ target := by
    rintro rfl
    exact hnot .refl
  have hparent : ∀ t, bootstrap.IsSupertype e t →
      ViewIs r (some (within (some n) t)) target none := by
    intro t ht
    obtain ⟨p, hp, hparent⟩ : ∃ p, t.head? = some p ∧ IsBase p := by
      obtain ⟨c, d, rfl, -⟩ := he
      exact exists_head?_of_isSupertype ht
    exact ih p ⟨t, ht, standsFor_of_head? _ hp⟩ hparent
      (fun h => hnot (.head (hasParent_of_head? ht hp) h)) (resolvesTo_of_head? hp)
  refine (viewIs_iff_of_ne hn hne _).mpr ⟨none, firstViewIs_none ?_, ?_⟩
  · intro m hm
    rw [interfaceNodes, hbase.genericInterfaces_eq he] at hm
    obtain ⟨t, ht, rfl⟩ := List.mem_map.mp hm
    exact hparent t (.inr ht)
  · rw [superNode?, hbase.genericSuperclass_eq he]
    cases ht : bootstrap.genericSuperclass e with
    | none => exact (viewIs_none_iff ..).mpr rfl
    | some t => exact hparent t (.inl ht)

/-- What is assignable only as boxed has no arguments as what it is assigned to. -/
theorem viewArgumentsAre_of_boxing (hbase : r.ExtendsBase) {target source : Erasure}
    (h : r.isAssignable target source = true) (hsub : r.isSubclass target source = false) :
    ViewArgumentsAre r (ofErasure source) target [] := by
  obtain ⟨b, hb, hcases⟩ := exists_box_of_isAssignable h hsub
  rw [hbase.wellKnown] at hb
  obtain ⟨he, hnot⟩ : IsBase source ∧ ¬bootstrap.IsBelow source target := by
    rcases hcases with ⟨rfl, rfl⟩ | ⟨rfl, hne⟩
    · exact not_isBelow_of_mem_boxes hb
    · refine ⟨ExtendsBase.isBase_of_isSome (ExtendsBase.boxes_of_bootstrap b hb).1,
        fun hbelow => ?_⟩
      rcases Relation.ReflTransGen.cases_head hbelow with heq | ⟨p, hp, -⟩
      · exact hne heq
      · rw [HasParent, extendsBase_bootstrap.supertypes_of_mem_boxes hb] at hp
        simp at hp
  exact ⟨none, viewIs_none_of_isBase hbase he hnot (resolvesTo_ofErasure source), .intro 0 rfl⟩

/-! ## The check of a class and of an array -/

theorem Planned.decides_arguments_nil_iff {n other : Node} {guard : Option Guard} {holds : Bool}
    (h : Planned r n other guard (.arguments [])) :
    (Comparison.mk (some n) (some other) guard).Decides r holds ↔ holds = true := by
  simp only [Comparison.Decides, h.answers_iff, carryOut, finds_assignableArgs_nil_iff,
    Prod.mk.injEq, exists_and_left, exists_eq, and_true]

/-- A class without parameters against an erasure: the erasures, and then the arguments that the
other side has as the class. -/
theorem decides_ofClass_iff {c : ClassId} (hc : r.typeParameters c = []) (s : Erasure)
    (holds : Bool) :
    (Comparison.mk (some (ofClass c)) (some (ofErasure s)) none).Decides r holds ↔
      if r.isAssignable (.ofClass c) s then
        ∃ args, ViewArgumentsAre r (ofErasure s) (.ofClass c) args ∧ holds = args.isEmpty
      else holds = false := by
  have hs : ResolvesTo r (ofErasure s) (some s) := resolvesTo_ofErasure s
  have hbounds : BoundsAre r (ofErasure s) none := boundsAre_of_head? (e := s) rfl
  have hargs : GenericsAre r (ofClass c) [] := (genericsAre_plain_iff ..).mpr (by simp [hc])
  have hmeets : Meets r (ofClass c) (ofErasure s) none ⟨.ofClass c, false, true⟩ s :=
    meets_of_head? rfl (by simp [Remembers]) hbounds hs
  cases hadmits : r.isAssignable (.ofClass c) s with
  | false =>
    have hrefused : Planned r (ofClass c) (ofErasure s) none (.decided false) :=
      .refused hmeets hadmits
    simpa using hrefused.decides_decided_iff
  | true =>
    -- our side has no arguments, so theirs decide
    have hiff : ∀ args, ViewArgumentsAre r (ofErasure s) (.ofClass c) args →
        ((Comparison.mk (some (ofClass c)) (some (ofErasure s)) none).Decides r holds ↔
          holds = args.isEmpty) := by
      intro args htheirs
      cases args with
      | nil =>
        have hplanned : Planned r (ofClass c) (ofErasure s) none (.arguments []) :=
          .arguments hmeets hadmits rfl hargs htheirs rfl
        exact hplanned.decides_arguments_nil_iff
      | cons arg rest =>
        have hplanned : Planned r (ofClass c) (ofErasure s) none (.decided false) :=
          .otherLength hmeets hadmits rfl hargs htheirs (by simp)
        exact hplanned.decides_decided_iff
    simp only [if_true]
    constructor
    · rintro ⟨after, hanswer⟩
      obtain ⟨p, hplan, -⟩ := (Comparison.answers_iff ..).mp hanswer
      rcases (planned_of_planIs hplan).cases_of_head? rfl hs
        (fun w hw => by simpa using hw.unique hbounds) with
        ⟨hfails, -⟩ | ⟨-, -, args, -, htheirs, -⟩
      · exact absurd (hadmits.symm.trans hfails) (by decide)
      · exact ⟨args, htheirs, (hiff args htheirs).mp ⟨after, hanswer⟩⟩
    · rintro ⟨args, htheirs, heq⟩
      exact (hiff args htheirs).mpr heq

/-- An erasure against another: what is left of both without the dimensions of the first. -/
theorem decides_peel_iff (t s : Erasure) (holds : Bool) :
    (Comparison.mk (some (ofErasure t)) (some (ofErasure s)) none).Decides r holds ↔
      match s.peel? t.dims.toNat with
      | some rest =>
        (Comparison.mk (some (ofClass t.element)) (some (ofErasure rest)) none).Decides r holds
      | none => holds = false := by
  induction hdims : t.dims.toNat generalizing t s with
  | zero =>
    have hclass : ofErasure t = ofClass t.element :=
      congrArg ofErasure (Erasure.eq_ofClass_of_dims hdims)
    rw [hclass]
    rfl
  | succ dims ih =>
    obtain ⟨c, hc, hcdims, helement⟩ := Erasure.exists_component? hdims
    have harray : ArrayIs r (ofErasure t) true :=
      (arrayIs_of_plain (expr_written ..) _).mpr ((Erasure.isArray_iff t).mpr (by omega)).symm
    cases hs : s.component? with
    | none =>
      have hother : ArrayIs r (ofErasure s) false :=
        (arrayIs_of_plain (expr_written ..) _).mpr
          ((Erasure.component?_eq_none_iff s).mp hs).symm
      simpa [Erasure.peel?, hs] using (Planned.noArray harray hother).decides_decided_iff
    | some d =>
      have hsdims := Erasure.toNat_dims_of_component? hs
      have hother : ArrayIs r (ofErasure s) true :=
        (arrayIs_of_plain (expr_written ..) _).mpr ((Erasure.isArray_iff s).mpr (by omega)).symm
      have hplanned : Planned r (ofErasure t) (ofErasure s) none
          (.components (some (ofErasure c)) (some (ofErasure d))) :=
        .components harray hother ((componentIs_plain_iff ..).mpr (by rw [hc]; rfl))
          ((componentIs_plain_iff ..).mpr (by rw [hs]; rfl))
      rw [hplanned.decides_components_iff, ih c d hcdims, helement]
      simp [Erasure.peel?, hs]

/-! ## The check of a node and the relation of erasures -/

/-- What the check of an erasure by itself against another answers. -/
def ErasureCheckIs (r : Registry) (t s : Erasure) (holds : Bool) : Prop :=
  Finds (fun limit => isAssignableFromErasure limit r (some (ofErasure t)) s) holds

theorem erasureCheckIs_iff {t : Erasure} (ht : r.typeParameters t.element = []) (s : Erasure)
    (holds : Bool) :
    ErasureCheckIs r t s holds ↔
      match s.peel? t.dims.toNat with
      | some rest =>
        if r.isAssignable (.ofClass t.element) rest then
          ∃ args, ViewArgumentsAre r (ofErasure rest) (.ofClass t.element) args ∧
            holds = args.isEmpty
        else holds = false
      | none => holds = false := by
  refine (finds_isAssignableFrom_iff ..).trans ((decides_peel_iff t s holds).trans ?_)
  cases s.peel? t.dims.toNat with
  | none => rfl
  | some rest => exact decides_ofClass_iff ht rest holds

/-- No declared supertype gives a class arguments. -/
def NeverApplied (r : Registry) (c : ClassId) : Prop :=
  ∀ e t, r.IsSupertype e t → t.head? = some (.ofClass c) → t.arguments = []

theorem neverApplied_of_wellFormed (h : r.DeclaresWellFormed) {c : ClassId}
    (hc : r.typeParameters c = []) : NeverApplied r c := by
  intro e t ht hhead
  have hwf := h.supertypes e t ht
  cases t with
  | parameterized raw args owner =>
    obtain rfl : raw = c := by simpa [TypeExpr.head?, Erasure.ofClass] using hhead
    exact List.length_eq_zero_iff.mp (hwf.1.trans (by rw [hc]; rfl))
  | plain _ | genericArray _ | wildcard _ _ | typeVar _ => rfl

/-- A class without parameters has no arguments in any declaration that gives it none. -/
theorem genericsAre_nil_of_head? {c : ClassId} (hc : r.typeParameters c = []) {t : TypeExpr}
    (ht : t.head? = some (.ofClass c)) (hargs : t.arguments = []) (context : Option Node) :
    GenericsAre r (written t context) [] := by
  cases t with
  | plain e =>
    obtain rfl : e = .ofClass c := Option.some.inj ht
    exact (genericsAre_plain_iff ..).mpr (by simp [hc])
  | parameterized raw args owner =>
    obtain rfl : args = [] := hargs
    exact (genericsAre_parameterized_iff ..).mpr rfl
  | genericArray _ | wildcard _ _ | typeVar _ => simp [TypeExpr.head?] at ht

/-- An erasure has no arguments as a class that has no parameters and is never given arguments. -/
theorem viewArgumentsAre_nil (hi : r.AcyclicInheritance) (h : r.NamedInheritance) {c : ClassId}
    (hc : r.typeParameters c = []) (hplain : NeverApplied r c) (s : Erasure) :
    ViewArgumentsAre r (ofErasure s) (.ofClass c) [] := by
  have hs : ResolvesTo r (ofErasure s) (some s) := resolvesTo_ofErasure s
  obtain ⟨view, hview, -, hright⟩ := exists_viewIs_of_named hi h hs (.ofClass c)
  refine ⟨view, hview, ?_⟩
  cases view with
  | none => exact .intro 0 rfl
  | some v =>
    rcases eq_or_within_of_viewIs hi hview with rfl | ⟨e, t, n, ht, rfl⟩
    · have heq : s = .ofClass c := by
        simpa using hs.unique (resolve_steady r _) (hright _ rfl)
      subst heq
      exact genericsAre_nil_of_head? hc rfl rfl none
    · obtain ⟨b, hb⟩ := h.exists_head? ht
      have hfound : ResolvesTo r (within (some n) t) (some (.ofClass b)) := resolvesTo_of_head? hb
      have heq := hfound.unique (resolve_steady r _) (hright _ rfl)
      rw [heq] at hb
      exact genericsAre_nil_of_head? hc hb (hplain e t ht hb) _

theorem ErasureCheckIs.unique {t s : Erasure} {holds holds' : Bool}
    (h : ErasureCheckIs r t s holds) (h' : ErasureCheckIs r t s holds') : holds = holds' :=
  Finds.unique (isAssignableFrom_steady _ _) h h'

/-- Where the check of an erasure answers as the relation of erasures does. -/
theorem erasureCheckIs_isAssignable_iff (hbase : r.ExtendsBase) {t : Erasure}
    (ht : r.typeParameters t.element = []) (s : Erasure) :
    ErasureCheckIs r t s (r.isAssignable t s) ↔
      ∀ rest ∈ s.peel? t.dims.toNat, r.isAssignable (.ofClass t.element) rest = true →
        (t.isArray = true → r.isSubclass (.ofClass t.element) rest = true) ∧
          ViewArgumentsAre r (ofErasure rest) (.ofClass t.element) [] := by
  rw [erasureCheckIs_iff ht, isAssignable_eq_peel hbase]
  cases s.peel? t.dims.toNat with
  | none => simp
  | some rest =>
    simp only [Option.any_some, Option.mem_def, Option.some.injEq, forall_eq']
    cases hassign : r.isAssignable (.ofClass t.element) rest with
    | false =>
      have hsub : r.isSubclass (.ofClass t.element) rest = false := by
        rw [← Bool.not_eq_true]
        intro hsub
        simp [isAssignable_of_isSubclass hsub] at hassign
      cases t.isArray <;> simp [hassign, hsub]
    | true =>
      cases harray : t.isArray with
      | false => simp [hassign]
      | true =>
        cases hsub : r.isSubclass (.ofClass t.element) rest with
        | true => simp [hsub]
        | false =>
          -- the check boxes the elements, and finds no arguments
          have hview := viewArgumentsAre_of_boxing hbase hassign hsub
          simp only [hsub, if_true, Bool.false_eq_true, true_imp_iff, false_and, iff_false]
          rintro ⟨args, hview', hempty⟩
          obtain rfl := hview.unique hview'
          simp at hempty

/-- The check of an erasure ends if what is left has a view as the element. -/
theorem exists_erasureCheckIs {t : Erasure} (ht : r.typeParameters t.element = []) {s : Erasure}
    (hview : ∀ rest ∈ s.peel? t.dims.toNat,
      ∃ args, ViewArgumentsAre r (ofErasure rest) (.ofClass t.element) args) :
    ∃ holds, ErasureCheckIs r t s holds := by
  simp only [erasureCheckIs_iff ht]
  cases hrest : s.peel? t.dims.toNat with
  | none => exact ⟨false, rfl⟩
  | some rest =>
    obtain ⟨args, hargs⟩ := hview rest hrest
    by_cases hassign : r.isAssignable (.ofClass t.element) rest = true
    · exact ⟨args.isEmpty, (if_pos hassign).mpr ⟨args, hargs, rfl⟩⟩
    · exact ⟨false, (if_neg hassign).mpr rfl⟩

/--
The check of an erasure by itself against another, if its element has no type parameters.  It
answers what the relation of erasures does exactly if, where the element is assignable from what is
left of the other side without the dimensions of the first, no element of an array is assignable
only as boxed, and what is left has a view as the element that has no arguments.

The latter holds if the supertypes name classes, without circles, and never give the element
arguments.  Then the check ends, and only the boxing of elements makes it differ.
-/
theorem isAssignableFromErasure_eq_iff (hbase : r.ExtendsBase) {t : Erasure}
    (ht : r.typeParameters t.element = []) (s : Erasure) :
    (ErasureCheckIs r t s (r.isAssignable t s) ↔
      ∀ rest ∈ s.peel? t.dims.toNat, r.isAssignable (.ofClass t.element) rest = true →
        (t.isArray = true → r.isSubclass (.ofClass t.element) rest = true) ∧
          ViewArgumentsAre r (ofErasure rest) (.ofClass t.element) []) ∧
      (r.AcyclicInheritance → r.NamedInheritance → NeverApplied r t.element →
        ∃ holds, ErasureCheckIs r t s holds ∧
          (holds = r.isAssignable t s ↔
            ∀ rest ∈ s.peel? t.dims.toNat, r.isAssignable (.ofClass t.element) rest = true →
              t.isArray = true → r.isSubclass (.ofClass t.element) rest = true)) := by
  have hiff := erasureCheckIs_isAssignable_iff hbase ht s
  refine ⟨hiff, fun hi h hplain => ?_⟩
  have hview := viewArgumentsAre_nil hi h ht hplain
  obtain ⟨holds, hholds⟩ := exists_erasureCheckIs ht fun rest _ => ⟨[], hview rest⟩
  have hsame : holds = r.isAssignable t s ↔ ErasureCheckIs r t s (r.isAssignable t s) :=
    ⟨fun heq => heq ▸ hholds, hholds.unique⟩
  refine ⟨holds, hholds, hsame.trans (hiff.trans ?_)⟩
  simp only [hview, and_true]

/-- Arrays of numbers take arrays of integers, for the check and between erasures. -/
theorem isAssignableFromErasure_eq_numbers :
    ErasureCheckIs bootstrap ⟨Bootstrap.wellKnown.number, 1⟩ ⟨Bootstrap.wellKnown.integer, 1⟩
      (bootstrap.isAssignable ⟨Bootstrap.wellKnown.number, 1⟩
        ⟨Bootstrap.wellKnown.integer, 1⟩) := by
  have hnumber : bootstrap.typeParameters Bootstrap.wellKnown.number = [] := by decide +kernel
  have hsub : bootstrap.isSubclass (.ofClass Bootstrap.wellKnown.number)
      (.ofClass Bootstrap.wellKnown.integer) = true := by decide +kernel
  obtain ⟨holds, hholds, heq⟩ := (isAssignableFromErasure_eq_iff extendsBase_bootstrap
    (t := ⟨Bootstrap.wellKnown.number, 1⟩) hnumber ⟨Bootstrap.wellKnown.integer, 1⟩).2
    (acyclicInheritance_of_supertypesFirst bootstrap_supertypesFirst)
    (namedInheritance_of_check (by decide +kernel))
    (neverApplied_of_wellFormed (declaresWellFormed_of_check (by decide +kernel)) hnumber)
  rwa [heq.mpr ?_] at hholds
  rintro rest hrest - -
  obtain rfl : Erasure.ofClass Bootstrap.wellKnown.integer = rest := Option.some.inj hrest
  exact hsub

/-- Arrays of `int` take arrays of integers, though nothing is boxed in arrays. -/
theorem isAssignableFromErasure_boxes_elements :
    bootstrap.ExtendsBase ∧ bootstrap.typeParameters Bootstrap.wellKnown.primInt = [] ∧
      bootstrap.typeParameters Bootstrap.wellKnown.integer = [] ∧
      ErasureCheckIs bootstrap ⟨Bootstrap.wellKnown.primInt, 1⟩ ⟨Bootstrap.wellKnown.integer, 1⟩
        true ∧
      bootstrap.isAssignable ⟨Bootstrap.wellKnown.primInt, 1⟩
        ⟨Bootstrap.wellKnown.integer, 1⟩ = false :=
  ⟨extendsBase_bootstrap, by decide +kernel, by decide +kernel, .intro 8 rfl, by decide +kernel⟩

end Node

end TypeConversion
