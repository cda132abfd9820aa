import TypeConversion.Proofs.Node.Display
import TypeConversion.Proofs.Node.VariableFree
import TypeConversion.Proofs.Assignable.Plan
import TypeConversion.Proofs.Assignable.Written
import TypeConversion.Proofs.Registry.Subclass

/-!
# Which nodes have a text

A node without type variables is smaller with every step into its component or its arguments, except
into the parameters of a class without arguments.  A parameter that is bound there stands for a
smaller node.  One that is not bound is shown as a question mark, but only after it was asked whether
it is an array: a variable whose bound is an array is shown as one, by its component.  So such a node
has a text if no bound leads to an array, and need not have one otherwise.

**Results**

* `exists_displayIs`: a node has a text if its parts have texts;
* `partsShown`: the parts of a node without variables have texts if no bound leads to an array;
* `exists_lt_of_display_array`, `exists_lt_of_display_class`: the parts of a node that has a text have
  texts under smaller limits;
* `display_arrayBounded`: a class whose parameter is bounded by arrays of the class has no text.
-/

namespace TypeConversion

namespace Registry

/-- What the first bound of a type variable unfolds to is no array. -/
def NoArrayBounds (r : Registry) : Prop :=
  ∀ v t, Relation.TransGen r.Unfolds (.typeVar v) t → t.isArray = false

variable {r : Registry}

/-- The first bound of a variable is a bound of a declared one. -/
theorem exists_of_declaredBound? {v : TypeVarId} {b : TypeExpr} (h : r.declaredBound? v = some b) :
    ∃ d ∈ r.typeParams, r.firstBound? d.upperBounds = some b := by
  obtain ⟨d, hd, hb⟩ := Option.bind_eq_some_iff.mp h
  exact ⟨d, Array.mem_of_getElem? hd, hb⟩

/-- Bounds that are classes lead to no arrays. -/
theorem noArrayBounds_of_boundsAreClasses (h : r.boundsAreClasses = true)
    (harrays : (r.typeParams.all fun d =>
      (r.firstBound? d.upperBounds).all fun b => !b.isArray) = true) : r.NoArrayBounds := by
  intro v t ht
  suffices hclass : (∃ e, t = .plain e ∧ e.isArray = false) ∨
      ∃ c args, t = .parameterized c args none by
    rcases hclass with ⟨e, rfl, he⟩ | ⟨c, args, rfl⟩
    · exact he
    · rfl
  induction ht with
  | @single b hu =>
    have hb : r.declaredBound? v = some b := by cases hu; assumption
    obtain ⟨d, hmem, hb⟩ := exists_of_declaredBound? hb
    have hclass := (Array.all_eq_true'.mp h) d hmem
    have harray := (Array.all_eq_true'.mp harrays) d hmem
    rw [hb, Option.all_some] at hclass harray
    cases b with
    | plain e => exact .inl ⟨e, rfl, by simpa [TypeExpr.isArray] using harray⟩
    | parameterized c args owner =>
      cases owner with
      | none => exact .inr ⟨c, args, rfl⟩
      | some o => simp at hclass
    | _ => simp at hclass
  | tail _ hstep ih =>
    rcases ih with ⟨e, rfl, -⟩ | ⟨c, args, rfl⟩
    · cases hstep
    · cases hstep
      exact .inl ⟨_, rfl, rfl⟩

end Registry

namespace Node

open Walk Registry

variable {r : Registry}

/-! ## Texts from texts of the parts -/

theorem displayIs_none : DisplayIs r none "?" := .intro 0 rfl

theorem isOpenVariable_total (hr : r.Acyclic) (n : Node) :
    Total fun limit => isOpenVariable r limit n := by
  refine ⟨isOpenVariable_steady r n, ?_⟩
  cases he : n.expr with
  | typeVar v =>
    simp only [isOpenVariable, he]
    exact ((resolveInContext_total hr n.context v).bind fun _ => .const _).finds
  | _ =>
    simp only [isOpenVariable, he]
    exact ⟨false, finds_const_iff.mpr rfl⟩

/-- A node has a text if its component has one, and its arguments where they are shown. -/
theorem exists_displayIs (hr : r.Acyclic) {n : Node}
    (hcomponent : ∀ c, ComponentIs r n (some c) → ∃ text, DisplayIs r (some c) text)
    (hargs : Finds (fun limit => isOpenVariable r limit n) false →
      ∀ args, GenericsAre r n args → ∃ texts, DisplaysAre r args texts) :
    ∃ text, DisplayIs r (some n) text := by
  obtain ⟨array, harray⟩ := exists_arrayIs hr.bounds n
  cases array with
  | true =>
    obtain ⟨c, hc⟩ := exists_componentIs hr.bounds n
    cases c with
    | none => exact ⟨_, displayIs_array harray hc displayIs_none⟩
    | some c =>
      obtain ⟨text, htext⟩ := hcomponent c hc
      exact ⟨_, displayIs_array harray hc htext⟩
  | false =>
    obtain ⟨e, he⟩ := exists_resolvesTo hr.bounds n
    obtain ⟨isOpen, hopen⟩ := (isOpenVariable_total hr n).finds
    obtain ⟨args, hgenerics⟩ := exists_genericsAre hr.bounds n
    have htexts : ∃ texts, isOpen = false → DisplaysAre r args texts := by
      cases isOpen with
      | true => exact ⟨[], by simp⟩
      | false =>
        obtain ⟨texts, htexts⟩ := hargs hopen args hgenerics
        exact ⟨texts, fun _ => htexts⟩
    obtain ⟨texts, htexts⟩ := htexts
    have hshown : ∀ᶠ limit in Filter.atTop,
        isOpen = false → displayAll r limit args = some texts := by
      cases isOpen with
      | true => exact Filter.Eventually.of_forall fun _ h => by simp at h
      | false =>
        exact (Finds.eventually (displayAll_steady r args) (htexts rfl)).mono fun _ h _ => h
    obtain ⟨limit, harray, he, hopen, hgenerics, hshown⟩ :=
      ((Finds.eventually (isArray_steady r n) harray).and
        ((Finds.eventually (resolve_steady r n) he).and
          ((Finds.eventually (isOpenVariable_steady r n) hopen).and
            ((Finds.eventually (generics_steady r n) hgenerics).and hshown)))).exists
    have hsome : (display r (limit + 1) (some n)).isSome = true := by
      rw [display, harray, Option.bind_eq_bind, Option.bind_some, if_neg Bool.false_ne_true, he]
      cases e with
      | none => rfl
      | some e =>
        cases isOpen with
        | true => simp [hopen]
        | false => cases args <;> simp [hopen, hgenerics, hshown rfl]
    obtain ⟨text, htext⟩ := Option.isSome_iff_exists.mp hsome
    exact ⟨text, .intro _ htext⟩

theorem exists_displaysAre {args : List (Option Node)}
    (h : ∀ m, some m ∈ args → ∃ text, DisplayIs r (some m) text) :
    ∃ texts, DisplaysAre r args texts := by
  induction args with
  | nil => exact ⟨[], displaysAre_nil⟩
  | cons a rest ih =>
    obtain ⟨texts, htexts⟩ := ih fun m hm => h m (List.mem_cons_of_mem _ hm)
    cases a with
    | none => exact ⟨_, displaysAre_cons displayIs_none htexts⟩
    | some m =>
      obtain ⟨text, htext⟩ := h m List.mem_cons_self
      exact ⟨_, displaysAre_cons htext htexts⟩

/-! ## Nodes without variables -/

/-- The component and the arguments of a node have texts. -/
structure PartsShown (r : Registry) (n : Node) : Prop where
  component : ∀ c, ComponentIs r n (some c) → ∃ text, DisplayIs r (some c) text
  arguments : ∀ args, GenericsAre r n args → ∃ texts, DisplaysAre r args texts

theorem PartsShown.exists_displayIs (hr : r.Acyclic) {n : Node} (h : PartsShown r n) :
    ∃ text, DisplayIs r (some n) text :=
  Node.exists_displayIs hr h.component fun _ => h.arguments

section

variable (hr : r.Acyclic) {owner : Node}
  (hbound : ∀ v b, VariableIs r (some owner) v (some b) → PartsShown r b)

include hr hbound

/-- What a bound in a node consists of comes from what the node binds. -/
theorem exists_displayIs_component {t : TypeExpr}
    (ht : ∀ u, Relation.ReflTransGen r.Unfolds t u → u.isArray = false) {c : Node}
    (hc : ComponentIs r (written t (some owner)) (some c)) : ∃ text, DisplayIs r (some c) text := by
  induction t using hr.bounds.wellFounded.induction with
  | _ t ih =>
  have hnone : ¬ComponentIs r (written t (some owner)) none := fun h => by
    simpa using h.unique (componentType_steady r _) hc
  have hbelow : ∀ b, r.Unfolds t b → ComponentIs r (written b (some owner)) (some c) →
      ∃ text, DisplayIs r (some c) text := fun b hb h => ih b hb (fun u hu => ht u (hu.head hb)) h
  cases t with
  | plain e =>
    have he : e.component? = none := (e.component?_eq_none_iff).mpr (ht _ .refl)
    exact absurd ((componentIs_plain_iff ..).mpr (by rw [he]; rfl)) hnone
  | genericArray t => simpa [TypeExpr.isArray] using ht _ .refl
  | parameterized raw args o => simpa using eq_none_of_componentIs (expr_written ..) hc
  | wildcard upper lower =>
    obtain ⟨m, hm, h⟩ := (componentIs_of_step (by simp [TypeExpr.isFinal]) _).mp hc
    obtain rfl := (stepsTo_of_wildcard (expr_written ..) _).mp hm
    cases hb : r.wildcardBound? upper lower with
    | none => simp [hb] at h
    | some b => exact hbelow b (.wildcard hb) (by simpa [hb, sibling] using h)
  | typeVar w =>
    obtain ⟨m, hm, h⟩ := (componentIs_of_step (by simp [TypeExpr.isFinal]) _).mp hc
    obtain ⟨bound, hbinds, rfl⟩ := (stepsTo_of_typeVar (expr_written ..) _).mp hm
    cases bound with
    | some b => exact (hbound w b ((binds_some_iff ..).mp hbinds)).component c h
    | none =>
      cases hb : r.declaredBound? w with
      | none => simp [hb] at h
      | some b => exact hbelow b (.typeVar hb) (by simpa [hb, sibling] using h)

/-- A variable has a text in a node if what the node binds has. -/
theorem exists_displayIs_typeVar (harrays : r.NoArrayBounds) (v : TypeVarId) :
    ∃ text, DisplayIs r (some (written (.typeVar v) (some owner))) text := by
  refine exists_displayIs hr (fun c hc => ?_) fun hopen args hargs => ?_
  · refine exists_displayIs_component hr hbound (fun u hu => ?_) hc
    rcases Relation.reflTransGen_iff_eq_or_transGen.mp hu with rfl | hu
    · rfl
    · exact harrays v u hu
  · obtain ⟨m, hm, h⟩ := (genericsAre_of_step rfl _).mp hargs
    obtain ⟨bound, hbinds, rfl⟩ := (stepsTo_of_typeVar (expr_written ..) _).mp hm
    cases bound with
    | some b => exact (hbound v b ((binds_some_iff ..).mp hbinds)).arguments args h
    | none =>
      obtain ⟨limit, hopen⟩ := hopen
      obtain ⟨bound, hbound, hnone⟩ := Option.bind_eq_some_iff.mp
        (show resolveInContext r limit _ v >>= _ = some false by
          simpa [isOpenVariable] using hopen)
      obtain rfl := hbinds.eq_of_some (resolveInContext_steady r _ v) hbound
      simp at hnone

end

/-- The parts of a node without variables have texts, unless a bound leads to an array. -/
theorem partsShown (hr : r.Acyclic) (harrays : r.NoArrayBounds) {n : Node}
    (hn : n.typeVars = []) : PartsShown r n := by
  induction hk : n.size using Nat.strong_induction_on generalizing n with
  | _ k ih =>
  subst hk
  have hsmaller : ∀ m, m.Small n.size → PartsShown r m :=
    fun m hm => ih m.size hm.size hm.typeVars rfl
  constructor
  · exact fun c hc => (hsmaller c (small_of_componentIs hn hc)).exists_displayIs hr
  · refine fun args hargs => exists_displaysAre fun m hm => ?_
    rcases argument_cases hn hargs hm with hm | ⟨v, owner, hm⟩
    · exact (hsmaller m hm).exists_displayIs hr
    · rw [hm.eq]
      exact exists_displayIs_typeVar hr (fun w b hb =>
        hsmaller b ((small_of_variableIs hm.typeVars hb).mono hm.size)) harrays v

/-- What comes below a size has a text, unless a bound leads to an array. -/
theorem ComesBelow.exists_displayIs (hr : r.Acyclic) (harrays : r.NoArrayBounds) {n : Node}
    {k : Nat} (hn : ComesBelow r k n) : ∃ text, DisplayIs r (some n) text := by
  obtain ⟨t, ht, hsmall⟩ := hn
  refine PartsShown.exists_displayIs hr ⟨fun c hc => ?_, fun args hargs => ?_⟩
  · have hfound := (ht.found_iff (fun v c => componentIs_of_step (by simp [TypeExpr.isFinal])) _).mp
      hc
    cases t with
    | none => simp at hfound
    | some m => exact (partsShown hr harrays (hsmall m rfl).typeVars).component c hfound
  · have hfound := (ht.found_iff (fun v c => genericsAre_of_step rfl) _).mp hargs
    cases t with
    | none =>
      obtain rfl : args = [] := hfound
      exact ⟨[], displaysAre_nil⟩
    | some m => exact (partsShown hr harrays (hsmall m rfl).typeVars).arguments args hfound

/-! ## Nodes without a text -/

/-- The component of an array that has a text has one under a smaller limit. -/
theorem exists_lt_of_display_array {n : Node} {c : Option Node} {limit : Nat} {text : String}
    (harray : ArrayIs r n true) (hc : ComponentIs r n c)
    (h : display r limit (some n) = some text) :
    ∃ smaller < limit, ∃ text, display r smaller c = some text := by
  cases limit with
  | zero => simp [display] at h
  | succ limit =>
    rw [display] at h
    obtain ⟨array, harray', h⟩ := Option.bind_eq_some_iff.mp h
    obtain rfl := harray.eq_of_some (isArray_steady r n) harray'
    obtain ⟨c', hc', h⟩ := Option.bind_eq_some_iff.mp h
    obtain rfl := hc.eq_of_some (componentType_steady r n) hc'
    obtain ⟨text, htext, -⟩ := Option.bind_eq_some_iff.mp h
    exact ⟨limit, Nat.lt_succ_self limit, text, htext⟩

/-- So have all nodes of a list whose texts are found. -/
theorem exists_le_of_displayAll {ns : List (Option Node)} {n : Option Node} (hn : n ∈ ns)
    {limit : Nat} {texts : List String} (h : displayAll r limit ns = some texts) :
    ∃ smaller ≤ limit, ∃ text, display r smaller n = some text := by
  induction ns generalizing limit texts with
  | nil => simp at hn
  | cons m rest ih =>
    cases limit with
    | zero => simp [displayAll] at h
    | succ limit =>
      rw [displayAll] at h
      obtain ⟨text, htext, h⟩ := Option.bind_eq_some_iff.mp h
      obtain ⟨texts, htexts, -⟩ := Option.bind_eq_some_iff.mp h
      rcases List.mem_cons.mp hn with rfl | hn
      · exact ⟨limit, Nat.le_succ limit, text, htext⟩
      · obtain ⟨smaller, hle, hfound⟩ := ih hn htexts
        exact ⟨smaller, hle.trans (Nat.le_succ limit), hfound⟩

/-- The arguments of a class that has a text have texts under smaller limits. -/
theorem exists_lt_of_display_class {n : Node} {e : Erasure} {args : List (Option Node)}
    {limit : Nat} {text : String} (harray : ArrayIs r n false) (he : ResolvesTo r n (some e))
    (hclass : n.expr.isClass = true) (hargs : GenericsAre r n args)
    (h : display r limit (some n) = some text) {m : Option Node} (hm : m ∈ args) :
    ∃ smaller < limit, ∃ text, display r smaller m = some text := by
  cases limit with
  | zero => simp [display] at h
  | succ limit =>
    have hopen : isOpenVariable r limit n = some false := by
      rw [isOpenVariable]
      cases h : n.expr <;> first | rfl | simp [h, TypeExpr.isClass] at hclass
    rw [display] at h
    obtain ⟨array, harray', h⟩ := Option.bind_eq_some_iff.mp h
    obtain rfl := harray.eq_of_some (isArray_steady r n) harray'
    rw [if_neg Bool.false_ne_true] at h
    obtain ⟨e', he', h⟩ := Option.bind_eq_some_iff.mp h
    obtain rfl := he.eq_of_some (resolve_steady r n) he'
    dsimp only at h
    rw [hopen, Option.bind_eq_bind, Option.bind_some, if_neg Bool.false_ne_true] at h
    obtain ⟨args', hargs', h⟩ := Option.bind_eq_some_iff.mp h
    obtain rfl := hargs.eq_of_some (generics_steady r n) hargs'
    cases args with
    | nil => simp at hm
    | cons a rest =>
      obtain ⟨texts, htexts, -⟩ := Option.bind_eq_some_iff.mp h
      obtain ⟨smaller, hle, hfound⟩ := exists_le_of_displayAll hm htexts
      exact ⟨smaller, Nat.lt_succ_of_le hle, hfound⟩

/-- A class `G` with a parameter that is bounded by arrays of `G`. -/
def arrayBounded : Registry :=
  (Registry.bootstrap.addTypeParam ⟨"T", [.plain ⟨⟨37⟩, 1⟩]⟩).1.push
    { name := "G", typeParams := [⟨18⟩] }

theorem arrayBounded_acyclic : arrayBounded.Acyclic :=
  Registry.acyclic_of_ordered (by decide +kernel) (by decide +kernel)

/-- The class has no text wherever its parameter is not bound. -/
theorem display_arrayBounded (limit : Nat) {context : Option Node}
    (hcontext : VariableIs arrayBounded context ⟨18⟩ none) :
    display arrayBounded limit (some (written (.ofClass ⟨37⟩) context)) = none := by
  induction limit using Nat.strong_induction_on generalizing context with
  | _ limit ih =>
  rw [Option.eq_none_iff_forall_ne_some]
  intro text htext
  let owner : Node := written (.ofClass ⟨37⟩) context
  have howner : VariableIs arrayBounded (some owner) ⟨18⟩ none :=
    (variableIs_plain_iff ..).mpr hcontext
  have hbound : arrayBounded.declaredBound? ⟨18⟩ = some (.plain ⟨⟨37⟩, 1⟩) := by decide +kernel
  have hstep : StepsTo arrayBounded (written (.typeVar ⟨18⟩) (some owner))
      (some (written (.plain ⟨⟨37⟩, 1⟩) (some owner))) :=
    (stepsTo_of_typeVar (expr_written ..) _).mpr
      ⟨none, (binds_some_iff ..).mpr howner, by rw [hbound]; rfl⟩
  have hparams : arrayBounded.typeParameters ⟨37⟩ = [⟨18⟩] := by decide +kernel
  have hmem : some (written (.typeVar ⟨18⟩) (some owner)) ∈
      (arrayBounded.typeParameters ⟨37⟩).map fun v => some (written (.typeVar v) (some owner)) := by
    rw [hparams]
    exact List.mem_singleton_self _
  obtain ⟨smaller, hlt, text, htext⟩ := exists_lt_of_display_class
    ((arrayIs_of_plain (expr_written ..) _).mpr rfl)
    ((resolvesTo_of_plain (expr_written ..) _).mpr rfl) rfl ((genericsAre_plain_iff ..).mpr rfl)
    htext hmem
  obtain ⟨smallest, hlt', text, htext⟩ := exists_lt_of_display_array
    ((arrayIs_of_step rfl _).mpr ⟨_, hstep, (arrayIs_of_plain (expr_written ..) _).mpr rfl⟩)
    ((componentIs_of_step rfl _).mpr ⟨_, hstep, (componentIs_plain_iff ..).mpr rfl⟩) htext
  have hcut : display arrayBounded smallest (some (written (.ofClass ⟨37⟩) (some owner))) = none :=
    ih smallest (hlt'.trans hlt) howner
  exact absurd (hcut.symm.trans htext) (Option.some_ne_none text).symm

end Node

end TypeConversion
