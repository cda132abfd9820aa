import TypeConversion.Proofs.Substitution.Expr

/-!
# Well-formed type expressions

A type expression is well-formed for some variables if it mentions no others, gives every class as
many arguments as the class has parameters, and keeps the bounds of its wildcards free of variables.
What is well-formed for no variables at all can be read without a context.
-/

namespace TypeConversion

namespace TypeExpr

mutual

/--
A type expression with the right number of arguments everywhere, in which only some variables occur,
and these not in the bounds of wildcards.
-/
def WellFormed (r : Registry) (vars : List TypeVarId) : TypeExpr → Prop
  | plain e => r.typeParameters e.element = []
  | parameterized raw args owner =>
    args.length = (r.typeParameters raw).length ∧ AllWellFormed r vars args ∧
      OptionWellFormed r vars owner
  | genericArray component => WellFormed r vars component
  | wildcard upper lower => AllWellFormed r [] upper ∧ AllWellFormed r [] lower
  | typeVar v => v ∈ vars

def AllWellFormed (r : Registry) (vars : List TypeVarId) : List TypeExpr → Prop
  | [] => True
  | t :: rest => WellFormed r vars t ∧ AllWellFormed r vars rest

def OptionWellFormed (r : Registry) (vars : List TypeVarId) : Option TypeExpr → Prop
  | none => True
  | some t => WellFormed r vars t

end

mutual

/-- Whether a type expression is well-formed can be checked part by part. -/
def decWellFormed (r : Registry) (vars : List TypeVarId) :
    (t : TypeExpr) → Decidable (t.WellFormed r vars)
  | plain e => inferInstanceAs (Decidable (r.typeParameters e.element = []))
  | parameterized raw args owner =>
    have := decAllWellFormed r vars args
    have := decOptionWellFormed r vars owner
    inferInstanceAs (Decidable (args.length = (r.typeParameters raw).length ∧ _ ∧ _))
  | genericArray component => decWellFormed r vars component
  | wildcard upper lower =>
    have := decAllWellFormed r [] upper
    have := decAllWellFormed r [] lower
    inferInstanceAs (Decidable (_ ∧ _))
  | typeVar v => inferInstanceAs (Decidable (v ∈ vars))

def decAllWellFormed (r : Registry) (vars : List TypeVarId) :
    (ts : List TypeExpr) → Decidable (AllWellFormed r vars ts)
  | [] => isTrue trivial
  | t :: rest =>
    have := decWellFormed r vars t
    have := decAllWellFormed r vars rest
    inferInstanceAs (Decidable (_ ∧ _))

def decOptionWellFormed (r : Registry) (vars : List TypeVarId) :
    (t : Option TypeExpr) → Decidable (OptionWellFormed r vars t)
  | none => isTrue trivial
  | some t => decWellFormed r vars t

end

instance (r : Registry) (vars : List TypeVarId) (t : TypeExpr) :
    Decidable (t.WellFormed r vars) :=
  decWellFormed r vars t

variable {r : Registry} {vars : List TypeVarId} {t : TypeExpr}

theorem allWellFormed_iff (ts : List TypeExpr) :
    AllWellFormed r vars ts ↔ ∀ t ∈ ts, t.WellFormed r vars := by
  induction ts with
  | nil => simp [AllWellFormed]
  | cons t rest ih => simp [AllWellFormed, ih]

/-- No generic class stands by itself in a well-formed expression. -/
theorem WellFormed.not_isRaw (h : t.WellFormed r vars) : ¬t.IsRaw r := by
  cases t with
  | plain e => exact fun hraw => hraw.2 h
  | parameterized _ _ _ | genericArray _ | wildcard _ _ | typeVar _ => exact id

theorem WellFormed.argument (h : t.WellFormed r vars) {a : TypeExpr} (ha : a ∈ t.arguments) :
    a.WellFormed r vars := by
  cases t with
  | parameterized raw args owner => exact (allWellFormed_iff _).mp h.2.1 a ha
  | plain _ | genericArray _ | wildcard _ _ | typeVar _ => simp [arguments] at ha

/-- An expression without variables stays as it is. -/
theorem WellFormed.instantiate_eq_self (h : t.WellFormed r []) (σ : Bindings) :
    t.instantiate σ = t := by
  induction hw : t.weight using Nat.strong_induction_on generalizing t with
  | _ w ih =>
  subst hw
  have hall : ∀ {ts : List TypeExpr}, weightAll ts < t.weight → AllWellFormed r [] ts →
      instantiateAll σ ts = ts := by
    intro ts hlt hts
    rw [instantiateAll_eq_map]
    refine (List.map_congr_left fun u hu => ?_).trans (List.map_id ts)
    have := weight_le_weightAll hu
    exact ih u.weight (by omega) ((allWellFormed_iff ts).mp hts u hu) rfl
  cases t with
  | plain e => rfl
  | parameterized raw args owner =>
    obtain ⟨-, hargs, howner⟩ := h
    rw [instantiate, hall (by rw [weight]; omega) hargs]
    cases owner with
    | none => rfl
    | some o => rw [instantiateOption, ih o.weight (by rw [weight, weightOption]; omega) howner rfl]
  | genericArray component =>
    rw [instantiate, ih component.weight (by rw [weight]; omega) (t := component) h rfl]
  | wildcard upper lower =>
    rw [instantiate, hall (by rw [weight]; omega) h.1, hall (by rw [weight]; omega) h.2]
  | typeVar v => simp [WellFormed] at h

theorem instantiateAll_eq_self {ts : List TypeExpr} (h : AllWellFormed r [] ts) (σ : Bindings) :
    instantiateAll σ ts = ts := by
  rw [instantiateAll_eq_map]
  refine (List.map_congr_left fun u hu => ?_).trans (List.map_id ts)
  exact ((allWellFormed_iff ts).mp h u hu).instantiate_eq_self σ

/-- Where the variables are replaced by well-formed expressions a well-formed one is left. -/
theorem WellFormed.instantiate (h : t.WellFormed r vars) {σ : TypeVarId → TypeExpr}
    (hσ : ∀ v ∈ vars, (σ v).WellFormed r []) :
    (t.instantiate fun v => some (σ v)).WellFormed r [] := by
  induction hw : t.weight using Nat.strong_induction_on generalizing t with
  | _ w ih =>
  subst hw
  cases t with
  | plain e => exact h
  | parameterized raw args owner =>
    obtain ⟨hlength, hargs, howner⟩ := h
    rw [TypeExpr.instantiate, instantiateAll_eq_map]
    refine ⟨by rw [List.length_map, hlength], (allWellFormed_iff _).mpr ?_, ?_⟩
    · intro u hu
      obtain ⟨a, ha, rfl⟩ := List.mem_map.mp hu
      have := weight_le_weightAll ha
      exact ih a.weight (by rw [weight]; omega) ((allWellFormed_iff args).mp hargs a ha) rfl
    · cases owner with
      | none => trivial
      | some o => exact ih o.weight (by rw [weight, weightOption]; omega) (t := o) howner rfl
  | genericArray component =>
    exact ih component.weight (by rw [weight]; omega) (t := component) h rfl
  | wildcard upper lower =>
    rw [TypeExpr.instantiate, instantiateAll_eq_self h.1, instantiateAll_eq_self h.2]
    exact h
  | typeVar v => exact hσ v h

end TypeExpr

namespace Registry

/-- All declared supertypes and types of fields are well-formed for the declaring class. -/
structure DeclaresWellFormed (r : Registry) : Prop where
  object : r.typeParameters r.wellKnown.object = []
  supertypes : ∀ e t, r.IsSupertype e t → t.WellFormed r (r.parametersOf e)
  fields : ∀ c name d, r.field? c name = some d → d.type.WellFormed r (r.typeParameters c)

/-- All classes declare well-formed supertypes and fields, and arrays extend plain classes. -/
def checkWellFormed (r : Registry) : Bool :=
  (r.numbered.all fun (c, d) =>
    (r.supertypeExprs (.ofClass c)).all (·.WellFormed r d.typeParams) &&
      d.fields.all (·.type.WellFormed r d.typeParams)) &&
    [r.wellKnown.object, r.wellKnown.cloneable, r.wellKnown.serializable].all
      fun c => r.typeParameters c = []

theorem declaresWellFormed_of_check {r : Registry} (h : r.checkWellFormed = true) :
    r.DeclaresWellFormed := by
  rw [checkWellFormed, Bool.and_eq_true, List.all_eq_true, List.all_eq_true] at h
  obtain ⟨hclasses, harrays⟩ := h
  have hdeclares : ∀ c d, r.class? c = some d →
      (∀ t ∈ r.supertypeExprs (.ofClass c), t.WellFormed r d.typeParams) ∧
        ∀ f ∈ d.fields, f.type.WellFormed r d.typeParams := by
    intro c d hd
    simpa only [Bool.and_eq_true, List.all_eq_true, decide_eq_true_eq] using
      hclasses (c, d) (mem_numbered hd)
  have hplain : ∀ c ∈ [r.wellKnown.object, r.wellKnown.cloneable, r.wellKnown.serializable],
      r.typeParameters c = [] := fun c hc => by simpa using harrays c hc
  refine ⟨hplain _ (by simp), fun e t ht => ?_, fun c name f hf => ?_⟩
  · exact supertype_of_checks (fun c d hd => (hdeclares c d hd).1) hplain ht
  · obtain ⟨d, hd, hfind⟩ := Option.bind_eq_some_iff.mp hf
    have hparams : r.typeParameters c = d.typeParams := by simp [typeParameters, hd]
    rw [hparams]
    exact (hdeclares c d hd).2 f (List.mem_of_find?_eq_some hfind)

end Registry

end TypeConversion
