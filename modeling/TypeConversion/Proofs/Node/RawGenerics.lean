import TypeConversion.Proofs.Node.Termination
import TypeConversion.Node.Site
import TypeConversion.Registry.Bootstrap

/-!
# The type parameters of a raw class

A class without arguments has its type parameters for arguments.  They are read in the class, which
stands in a context in turn, and so they are open only as far as that context leaves them so: where
a class is mentioned raw inside one of its own instantiations, the context binds the same variables.

On the way from a variable along declared bounds there is at most one place at which the context
takes over.  `Captured` is that place, with the array dimensions passed on the way.  Up to there a
variable resolves as it does by itself, and from there as what the context binds.

**Results**

* `Captured.resolvesTo`, `resolvesTo_of_not_captured`: what a type expression resolves to in a
  context;
* `rawGenerics_open_iff`: a parameter of a raw class is open exactly if what the context takes over
  resolves to what is open.
-/

namespace TypeConversion

namespace Node

open Walk

/-- The array of an erasure with a number of further dimensions, as long as there may be so many. -/
def arrayTimes : Nat → Option Erasure → Option Erasure
  | 0, e => e
  | k + 1, e => (arrayTimes k e).bind (·.array?)

/-- What a variable resolves to where nothing binds it: the erasure of its first declared bound, or
nothing if there is none or it is the top class. -/
def OpenResolvesTo (r : Registry) (v : TypeVarId) (e : Option Erasure) : Prop :=
  match r.declaredBound? v with
  | none => e = none
  | some t => ResolvesTo r (ofExpr t) e

/--
A context binds a variable that is met on the way from a type expression to its erasure: a variable
that it binds, or else one of the first bounds of variables and wildcards, or below array
dimensions, which are counted.
-/
inductive Captured (r : Registry) (context : Option Node) :
    TypeExpr → Nat → TypeVarId → Node → Prop
  | here {v : TypeVarId} {b : Node} (h : VariableIs r context v (some b)) :
      Captured r context (.typeVar v) 0 v b
  | bound {v w : TypeVarId} {t : TypeExpr} {k : Nat} {b : Node}
      (hfree : VariableIs r context v none) (ht : r.declaredBound? v = some t)
      (h : Captured r context t k w b) : Captured r context (.typeVar v) k w b
  | wildcard {upper lower : List TypeExpr} {w : TypeVarId} {t : TypeExpr} {k : Nat} {b : Node}
      (ht : r.wildcardBound? upper lower = some t) (h : Captured r context t k w b) :
      Captured r context (.wildcard upper lower) k w b
  | array {w : TypeVarId} {t : TypeExpr} {k : Nat} {b : Node} (h : Captured r context t k w b) :
      Captured r context (.genericArray t) (k + 1) w b

variable {r : Registry} {context : Option Node}

/-! ## One step of resolving -/

theorem resolvesTo_typeVar_of_bound {v : TypeVarId} {b : Node}
    (h : VariableIs r context v (some b)) (e : Option Erasure) :
    ResolvesTo r (written (.typeVar v) context) e ↔ ResolvesTo r b e := by
  have hstep : StepsTo r (written (.typeVar v) context) (some b) :=
    (stepsTo_of_typeVar (expr_written ..) _).mpr ⟨some b, (binds_iff ..).mpr h, rfl⟩
  rw [resolvesTo_of_step rfl]
  constructor
  · rintro ⟨t, ht, he⟩
    obtain rfl := ht.unique hstep
    exact he
  · exact fun he => ⟨some b, hstep, he⟩

theorem resolvesTo_typeVar_of_free {v : TypeVarId} (h : VariableIs r context v none)
    (e : Option Erasure) :
    ResolvesTo r (written (.typeVar v) context) e ↔
      match r.declaredBound? v with
      | none => e = none
      | some t => ResolvesTo r (written t context) e := by
  have hstep : StepsTo r (written (.typeVar v) context)
      ((r.declaredBound? v).map fun t => written t context) :=
    (stepsTo_of_typeVar (expr_written ..) _).mpr ⟨none, (binds_iff ..).mpr h, rfl⟩
  rw [resolvesTo_of_step rfl]
  constructor
  · rintro ⟨t, ht, he⟩
    obtain rfl := ht.unique hstep
    cases hbound : r.declaredBound? v <;> simpa [hbound] using he
  · intro he
    refine ⟨_, hstep, ?_⟩
    cases hbound : r.declaredBound? v <;> simpa [hbound] using he

/-- By itself a variable is open. -/
theorem resolvesTo_ofExpr_typeVar_iff (v : TypeVarId) (e : Option Erasure) :
    ResolvesTo r (ofExpr (.typeVar v)) e ↔ OpenResolvesTo r v e :=
  resolvesTo_typeVar_of_free ((variableIs_none_iff ..).mpr rfl) e

theorem resolvesTo_parameterized_iff {raw : ClassId} {args : List TypeExpr}
    {owner : Option TypeExpr} (e : Option Erasure) :
    ResolvesTo r (written (.parameterized raw args owner) context) e ↔
      e = some (.ofClass raw) := by
  rw [resolvesTo_of_step rfl]
  simp only [stepsTo_of_parameterized (expr_written ..), exists_eq_left]
  exact resolvesTo_of_plain (expr_written ..) e

theorem resolvesTo_wildcard_iff {upper lower : List TypeExpr} (e : Option Erasure) :
    ResolvesTo r (written (.wildcard upper lower) context) e ↔
      match r.wildcardBound? upper lower with
      | none => e = none
      | some t => ResolvesTo r (written t context) e := by
  have hstep := stepsTo_of_wildcard (r := r) (expr_written (.wildcard upper lower) context)
  rw [resolvesTo_of_step rfl]
  simp only [hstep, exists_eq_left]
  cases r.wildcardBound? upper lower <;> rfl

theorem resolvesTo_genericArray_iff {t : TypeExpr} (e : Option Erasure) :
    ResolvesTo r (written (.genericArray t) context) e ↔
      ∃ a, ResolvesTo r (written t context) a ∧ e = a.bind (·.array?) := by
  rw [resolvesTo_of_genericArray (expr_written ..)]
  simp only [componentIs_genericArray_iff, exists_eq_left]

theorem OpenResolvesTo.unique {v : TypeVarId} {e e' : Option Erasure} (h : OpenResolvesTo r v e)
    (h' : OpenResolvesTo r v e') : e = e' :=
  Finds.unique (resolve_steady r _) ((resolvesTo_ofExpr_typeVar_iff ..).mpr h)
    ((resolvesTo_ofExpr_typeVar_iff ..).mpr h')

/-! ## What the context takes over -/

/-- What is captured resolves as what the context binds it to. -/
theorem Captured.resolvesTo {t : TypeExpr} {k : Nat} {w : TypeVarId} {b : Node}
    (h : Captured r context t k w b) {e : Option Erasure}
    (he : ResolvesTo r (written t context) e) : ∃ a, ResolvesTo r b a ∧ e = arrayTimes k a := by
  induction h generalizing e with
  | here hbound => exact ⟨e, (resolvesTo_typeVar_of_bound hbound e).mp he, rfl⟩
  | bound hfree ht _ ih =>
    have he := (resolvesTo_typeVar_of_free hfree e).mp he
    rw [ht] at he
    exact ih he
  | wildcard ht _ ih =>
    have he := (resolvesTo_wildcard_iff e).mp he
    rw [ht] at he
    exact ih he
  | array _ ih =>
    obtain ⟨inner, hinner, rfl⟩ := (resolvesTo_genericArray_iff e).mp he
    obtain ⟨a, ha, rfl⟩ := ih hinner
    exact ⟨a, ha, rfl⟩

/-- By itself, what would be captured is open. -/
theorem Captured.openResolvesTo {t : TypeExpr} {k : Nat} {w : TypeVarId} {b : Node}
    (h : Captured r context t k w b) {e : Option Erasure} (he : ResolvesTo r (ofExpr t) e) :
    ∃ a, OpenResolvesTo r w a ∧ e = arrayTimes k a := by
  induction h generalizing e with
  | here _ => exact ⟨e, (resolvesTo_ofExpr_typeVar_iff ..).mp he, rfl⟩
  | bound _ ht _ ih =>
    have he := (resolvesTo_ofExpr_typeVar_iff ..).mp he
    rw [OpenResolvesTo, ht] at he
    exact ih he
  | wildcard ht _ ih =>
    have he := (resolvesTo_wildcard_iff e).mp he
    rw [ht] at he
    exact ih he
  | array _ ih =>
    obtain ⟨inner, hinner, rfl⟩ := (resolvesTo_genericArray_iff e).mp he
    obtain ⟨a, ha, rfl⟩ := ih hinner
    exact ⟨a, ha, rfl⟩

/-- What is not captured resolves as it does by itself. -/
theorem resolvesTo_of_not_captured {t : TypeExpr} (h : ∀ k w b, ¬Captured r context t k w b)
    {e : Option Erasure} (he : ResolvesTo r (written t context) e) : ResolvesTo r (ofExpr t) e := by
  obtain ⟨limit, he⟩ := he
  induction limit generalizing t e with
  | zero => simp [resolve] at he
  | succ limit ih =>
    cases t with
    | plain a =>
      have he : ResolvesTo r (written (.plain a) context) e := .intro (limit + 1) he
      exact (resolvesTo_of_plain (expr_written ..) e).mpr
        ((resolvesTo_of_plain (expr_written ..) e).mp he)
    | parameterized raw args owner =>
      have he : ResolvesTo r (written (.parameterized raw args owner) context) e :=
        .intro (limit + 1) he
      exact (resolvesTo_parameterized_iff e).mpr ((resolvesTo_parameterized_iff e).mp he)
    | genericArray t =>
      obtain ⟨c, hc, he⟩ := Option.bind_eq_some_iff.mp he
      obtain rfl := (componentIs_genericArray_iff ..).mp (.intro limit hc)
      obtain ⟨a, ha, he⟩ := Option.bind_eq_some_iff.mp he
      obtain rfl := Option.some.inj he
      have hinner := ih (fun k w b hb => h (k + 1) w b hb.array) ha
      exact (resolvesTo_genericArray_iff _).mpr ⟨a, hinner, rfl⟩
    | wildcard upper lower =>
      obtain ⟨t, ht, he⟩ := exists_step_of_resolve rfl he
      obtain rfl := (stepsTo_of_wildcard (expr_written ..) t).mp ht
      refine (resolvesTo_wildcard_iff e).mpr ?_
      cases hbound : r.wildcardBound? upper lower with
      | none => simpa [hbound] using he
      | some t =>
        simp only [hbound, Option.map_some] at he
        exact ih (fun k w b hb => h k w b (.wildcard hbound hb)) he
    | typeVar v =>
      obtain ⟨t, ht, he⟩ := exists_step_of_resolve rfl he
      obtain ⟨bound, hbound, rfl⟩ := (stepsTo_of_typeVar (expr_written ..) t).mp ht
      have hbound : VariableIs r context v bound := (binds_iff ..).mp hbound
      cases bound with
      | some b => exact absurd (.here hbound) (h 0 v b)
      | none =>
        refine (resolvesTo_ofExpr_typeVar_iff v e).mpr ?_
        rw [OpenResolvesTo]
        cases hdeclared : r.declaredBound? v with
        | none => simpa [hdeclared] using he
        | some t =>
          simp only [hdeclared, Option.none_or, Option.map_some] at he
          exact ih (fun k w b hb => h k w b (.bound hbound hdeclared hb)) he

/-! ## Raw classes -/

/-- A node that is made of a class without arguments is that class in its context. -/
theorem eq_written_of_ofClass {n : Node} {c : ClassId} (hn : n.expr = .ofClass c) :
    n = written (.ofClass c) n.context := by
  cases n with
  | written t context =>
    obtain rfl : t = .ofClass c := by simpa using hn
    rfl
  | applied raw params given => simp [expr, TypeExpr.ofClass] at hn
  | arrayOf m =>
    rcases m.expr.arrayOf_cases with ⟨e, a, -, ha, harray⟩ | harray
    · obtain rfl : a = .ofClass c := by simpa [expr, harray, TypeExpr.ofClass] using hn
      exact absurd (Erasure.isArray_of_array? ha) Bool.false_ne_true
    · simp [expr, harray, TypeExpr.ofClass] at hn

/-- A context takes over the same as another one that binds the same variables. -/
theorem Captured.of_binds {context context' : Option Node}
    (hbinds : ∀ v b, VariableIs r context v b → VariableIs r context' v b) {t : TypeExpr} {k : Nat}
    {w : TypeVarId} {b : Node} (h : Captured r context t k w b) : Captured r context' t k w b := by
  induction h with
  | here h => exact .here (hbinds _ _ h)
  | bound hfree ht _ ih => exact .bound (hbinds _ _ hfree) ht ih
  | wildcard ht _ ih => exact .wildcard ht ih
  | array _ ih => exact .array ih

/--
The arguments of a class that is mentioned raw are its type parameters, read in the class.  Such a
parameter is open exactly if what the context of the class takes over of it resolves as it would if
it was open, with the array dimensions around it.
-/
theorem rawGenerics_open_iff (r : Registry) (c : ClassId) (n : Node) (hn : n.expr = .ofClass c) :
    GenericsAre r n
        ((r.typeParameters c).map fun v => some (written (.typeVar v) (some n))) ∧
      (r.AcyclicBounds → ∀ v, (∃ e, ResolvesTo r (written (.typeVar v) (some n)) e) ∧
        ∃ e, OpenResolvesTo r v e) ∧
      ∀ v e e', ResolvesTo r (written (.typeVar v) (some n)) e → OpenResolvesTo r v e' →
        (e = e' ↔ ∀ k w b, Captured r n.context (.typeVar v) k w b →
          ∀ a a', ResolvesTo r b a → OpenResolvesTo r w a' →
            arrayTimes k a = arrayTimes k a') := by
  obtain ⟨context, rfl⟩ : ∃ context, n = written (.ofClass c) context :=
    ⟨_, eq_written_of_ofClass hn⟩
  refine ⟨(genericsAre_plain_iff ..).mpr rfl, fun h v => ⟨exists_resolvesTo h _, ?_⟩,
    fun v e e' he he' => ?_⟩
  · simpa only [resolvesTo_ofExpr_typeVar_iff] using exists_resolvesTo h (ofExpr (.typeVar v))
  have hopen : ResolvesTo r (ofExpr (.typeVar v)) e' := (resolvesTo_ofExpr_typeVar_iff ..).mpr he'
  -- the class binds what its context does
  have hcaptured : ∀ {k w b}, Captured r context (.typeVar v) k w b →
      Captured r (some (written (.ofClass c) context)) (.typeVar v) k w b :=
    Captured.of_binds fun v b => (variableIs_plain_iff ..).mpr
  have hcaptured' : ∀ {k w b},
      Captured r (some (written (.ofClass c) context)) (.typeVar v) k w b →
      Captured r context (.typeVar v) k w b :=
    Captured.of_binds fun v b => (variableIs_plain_iff ..).mp
  constructor
  · rintro rfl k w b hb a a' ha ha'
    obtain ⟨found, hfound, hlift⟩ := (hcaptured hb).resolvesTo he
    obtain ⟨found', hfound', hlift'⟩ := (hcaptured hb).openResolvesTo hopen
    obtain rfl := ha.unique (resolve_steady r b) hfound
    obtain rfl := ha'.unique hfound'
    rw [← hlift, ← hlift']
  · intro hall
    by_cases hsome : ∃ k w b, Captured r (some (written (.ofClass c) context)) (.typeVar v) k w b
    · obtain ⟨k, w, b, hb⟩ := hsome
      obtain ⟨a, ha, rfl⟩ := hb.resolvesTo he
      obtain ⟨a', ha', rfl⟩ := hb.openResolvesTo hopen
      exact hall k w b (hcaptured' hb) a a' ha ha'
    · have hnone := fun k w b hb => hsome ⟨k, w, b, hb⟩
      exact (resolvesTo_of_not_captured hnone he).unique (resolve_steady r _) hopen

/-- The bootstrap registry with a class `Box<T>` that has a field of the raw type `Box`, and a class
`StringBox` that extends `Box<String>`. -/
def rawlyNested : Registry :=
  let box : ClassDef :=
    { name := "Box", typeParams := [⟨18⟩], fields := [⟨"raw", .ofClass ⟨37⟩, []⟩] }
  let stringBox : ClassDef :=
    { name := "StringBox"
      superClass := some (.parameterized ⟨37⟩ [.ofClass Bootstrap.wellKnown.string] none) }
  [box, stringBox].foldl .push (Registry.bootstrap.addTypeParam ⟨"T", []⟩).1

/-- The type `Box<String>` in which `StringBox` is seen. -/
def stringBoxView : Node :=
  within (some (ofClass ⟨38⟩)) (.parameterized ⟨37⟩ [.ofClass Bootstrap.wellKnown.string] none)

/-- The field of `StringBox`, which is mentioned raw. -/
def rawBox : Node := within (some stringBoxView) (.ofClass ⟨37⟩)

theorem rawBox_open_iff : rawBox.expr = .ofClass ⟨37⟩ ∧
    GenericsAre rawlyNested rawBox
        ((rawlyNested.typeParameters ⟨37⟩).map fun v => some (written (.typeVar v) (some rawBox))) ∧
      (rawlyNested.AcyclicBounds →
        ∀ v, (∃ e, ResolvesTo rawlyNested (written (.typeVar v) (some rawBox)) e) ∧
          ∃ e, OpenResolvesTo rawlyNested v e) ∧
      ∀ v e e', ResolvesTo rawlyNested (written (.typeVar v) (some rawBox)) e →
        OpenResolvesTo rawlyNested v e' →
        (e = e' ↔ ∀ k w b, Captured rawlyNested rawBox.context (.typeVar v) k w b →
          ∀ a a', ResolvesTo rawlyNested b a → OpenResolvesTo rawlyNested w a' →
            arrayTimes k a = arrayTimes k a') :=
  ⟨by decide, rawGenerics_open_iff rawlyNested ⟨37⟩ rawBox (by decide)⟩

/-- The field has the type parameter of its class for an argument, which resolves to the strings of
the context and not to what is open. -/
theorem rawBox_not_open :
    Finds (fun limit => ofFieldIn rawlyNested limit ⟨37⟩ "raw" ⟨38⟩) (.ok rawBox) ∧
      rawBox.expr = .ofClass ⟨37⟩ ∧
      GenericsAre rawlyNested rawBox [some (written (.typeVar ⟨18⟩) (some rawBox))] ∧
      ResolvesTo rawlyNested (written (.typeVar ⟨18⟩) (some rawBox))
        (some (.ofClass Bootstrap.wellKnown.string)) ∧
      OpenResolvesTo rawlyNested ⟨18⟩ none := by
  have hundeclared : rawlyNested.declaredBound? ⟨18⟩ = none := by decide +kernel
  refine ⟨.intro 4 (by decide +kernel), by decide, .intro 2 (by decide +kernel),
    .intro 6 (by decide +kernel), ?_⟩
  rw [OpenResolvesTo, hundeclared]

end Node

end TypeConversion
