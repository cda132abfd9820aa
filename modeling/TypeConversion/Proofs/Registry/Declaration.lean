import TypeConversion.Proofs.Registry.NameHistory

/-!
# Declarations that fail

A declaration in steps reads texts as types, each in the scope and against the registry of its
point, and keeps the first error.  Until it ends, a draft holds back what it knows of its class,
with one exception: type parameters are given to the class at once, so that bounds may mention it.
If the declaration fails they stay, also on a class that was declared before.

Readings change nothing but the error (`ClassDraft.readIn_fst`), so what a step changes does not
depend on what it can read.  What all steps together leave as it was is `ClassDraft.Publishes`,
which composes along the steps.

**Results**

* `ClassDraft.error_step`, `ClassDraft.error_steps`: the error is that of the first text which is
  not read;
* `ClassDraft.publishes_step`, `ClassDraft.publishes_steps`: type parameters are all that is
  published;
* `declare_spares`: what a declaration leaves as it was, when it fails, and what it leaves then;
* `brokenList_typeParams`: a class that is there and is declared anew in vain has other type
  parameters than before.
-/

namespace TypeConversion

/-- A text that is read as a type, with the registry and the scope that it is read in. -/
structure TypeReading where
  registry : Registry
  scope : List TypeVarId
  text : String

/-- Why a text is not read. -/
def TypeReading.failure? (x : TypeReading) : Option TypeError :=
  match x.registry.parseTypeIn x.scope x.text with
  | .ok _ => none
  | .error e => some e

/-- Why the first text of some that is not read is not read. -/
def firstFailure (xs : List TypeReading) : Option TypeError := xs.findSome? (·.failure?)

theorem firstFailure_cons (x : TypeReading) (xs : List TypeReading) :
    firstFailure (x :: xs) = x.failure?.or (firstFailure xs) := by
  rw [firstFailure, List.findSome?_cons]
  cases x.failure? <;> rfl

theorem firstFailure_append (xs ys : List TypeReading) :
    firstFailure (xs ++ ys) = (firstFailure xs).or (firstFailure ys) :=
  List.findSome?_append

/-- Whether a step declares a type parameter of the class. -/
def DraftStep.declaresParam : DraftStep → Bool
  | .typeParam _ _ => true
  | _ => false

namespace ClassDraft

/-- The texts that a step reads, unless there has been an error before. -/
def readings (d : ClassDraft) : DraftStep → List TypeReading
  | .kind _ | .enumeration _ | .annotate _ | .annotateMethod _ | .annotateParam _ _ => []
  | .superClass text | .interface text | .field _ text _ =>
    [⟨d.registry, d.declaration.typeParams, text⟩]
  | .typeParam name bounds =>
    let (r, v) := d.registry.addTypeParam ⟨name, []⟩
    let params := d.declaration.typeParams ++ [v]
    bounds.map (⟨r.setTypeParameters d.id params, params, ·⟩)
  | .method _ typeParams params returns =>
    let (entered, vars) := d.addVars typeParams
    (params.map (·.2) ++ returns.toList).map
      (⟨entered.registry, d.declaration.typeParams ++ vars, ·⟩)

/-- The texts that are read on the way through steps, in order. -/
def allReadings (d : ClassDraft) : List DraftStep → List TypeReading
  | [] => []
  | s :: steps => d.readings s ++ (d.step s).allReadings steps

/-! ## The first error -/

/-- A draft after a reading that may have failed: an earlier error stays. -/
def afterReading (d : ClassDraft) (failure : Option TypeError) : ClassDraft :=
  { d with error := d.error.or failure }

theorem afterReading_none (d : ClassDraft) : d.afterReading none = d := by
  rw [afterReading, Option.or_none]

theorem afterReading_afterReading (d : ClassDraft) (failure next : Option TypeError) :
    (d.afterReading failure).afterReading next = d.afterReading (failure.or next) := by
  simp only [afterReading, Option.or_assoc]

theorem afterReading_of_isSome {d : ClassDraft} (h : d.error.isSome = true)
    (failure : Option TypeError) : d.afterReading failure = d := by
  rcases Option.isSome_iff_exists.mp h with ⟨e, he⟩
  rw [afterReading, he, Option.some_or, ← he]

variable (d : ClassDraft)

/-- A reading changes the error of a draft and nothing else. -/
theorem readIn_fst (scope : List TypeVarId) (text : String) :
    (d.readIn scope text).1 = d.afterReading (TypeReading.failure? ⟨d.registry, scope, text⟩) := by
  rw [readIn, TypeReading.failure?]
  cases he : d.error with
  | some e => exact (afterReading_of_isSome (by simp [he]) _).symm
  | none =>
    cases d.registry.parseTypeIn scope text with
    | ok t => exact d.afterReading_none.symm
    | error e => simp [afterReading, he]

theorem isSome_error_of_readIn {scope : List TypeVarId} {text : String}
    (h : (d.readIn scope text).2 = none) : (d.readIn scope text).1.error.isSome = true := by
  rw [readIn] at h ⊢
  cases he : d.error with
  | some e => simp [he]
  | none =>
    cases hparse : d.registry.parseTypeIn scope text with
    | ok t => simp [he, hparse] at h
    | error e => simp

theorem readAll_fst (texts : List String) :
    (d.readAll texts).1 = d.afterReading
      (firstFailure (texts.map (⟨d.registry, d.declaration.typeParams, ·⟩))) := by
  induction texts generalizing d with
  | nil => exact d.afterReading_none.symm
  | cons text texts ih =>
    rw [List.map_cons, firstFailure_cons, ← afterReading_afterReading, ← readIn_fst]
    refine (ih (d.read text).1).trans ?_
    rw [read, readIn_fst]
    rfl

theorem readParams_fst (scope : List TypeVarId) (params : List (String × String)) :
    (d.readParams scope params).1 =
        d.afterReading (firstFailure (params.map fun p => ⟨d.registry, scope, p.2⟩)) ∧
      ((d.readParams scope params).2 = none →
        (d.readParams scope params).1.error.isSome = true) := by
  induction params generalizing d with
  | nil => exact ⟨d.afterReading_none.symm, fun h => nomatch h⟩
  | cons param params ih =>
    have hfirst := d.readIn_fst scope param.2
    have hnone : (d.readIn scope param.2).2 = none →
        (d.readIn scope param.2).1.error.isSome = true := d.isSome_error_of_readIn
    rw [List.map_cons, firstFailure_cons, ← afterReading_afterReading, ← hfirst, readParams]
    generalize d.readIn scope param.2 = read at hfirst hnone ⊢
    rcases read with ⟨d', t⟩
    cases t with
    | none => exact ⟨(afterReading_of_isSome (hnone rfl) _).symm, fun _ => hnone rfl⟩
    | some t =>
      rcases ih d' with ⟨hrest, hrestNone⟩
      have hregistry : d'.registry = d.registry := by
        rw [show d' = _ from hfirst]
        rfl
      rw [hregistry] at hrest
      exact ⟨hrest, fun h => hrestNone (by simpa using h)⟩

theorem addVars_fst (names : List String) :
    (d.addVars names).1.id = d.id ∧ (d.addVars names).1.declaration = d.declaration ∧
      (d.addVars names).1.error = d.error := by
  induction names generalizing d with
  | nil => exact ⟨rfl, rfl, rfl⟩
  | cons name names ih => exact ih _

/-- A step that reads a type and then changes the declaration. -/
theorem error_readIn_update (scope : List TypeVarId) (text : String)
    (f : TypeExpr → ClassDef → ClassDef) :
    (match d.readIn scope text with
      | (d, some t) => d.update (f t)
      | (d, none) => d).error =
      d.error.or (TypeReading.failure? ⟨d.registry, scope, text⟩) := by
  have hread := congrArg ClassDraft.error (d.readIn_fst scope text)
  split
  · rename_i h
    rw [h] at hread
    exact hread
  · rename_i h
    rw [h] at hread
    exact hread

theorem error_addMethod (name : String) (typeParams : List String)
    (params : List (String × String)) (returns : Option String) :
    (d.addMethod name typeParams params returns).error =
      d.error.or (firstFailure (d.readings (.method name typeParams params returns))) := by
  rcases d.addVars_fst typeParams with ⟨-, hdeclaration, herror⟩
  rw [addMethod, readings]
  dsimp only
  rw [← herror, ← hdeclaration]
  generalize d.addVars typeParams = entered
  rcases entered with ⟨d', vars⟩
  dsimp only
  set scope := d'.declaration.typeParams ++ vars
  rcases d'.readParams_fst scope params with ⟨hparams, hnone⟩
  rw [List.map_append, firstFailure_append, ← Option.or_assoc, List.map_map]
  have herror' : (d'.readParams scope params).1.error = d'.error.or
      (firstFailure (params.map ((⟨d'.registry, scope, ·⟩) ∘ (·.2)))) := by
    rw [hparams]
    rfl
  have hregistry : (d'.readParams scope params).1.registry = d'.registry := by
    rw [hparams]
    rfl
  rw [← herror', ← hregistry]
  generalize d'.readParams scope params = read at hnone ⊢
  rcases read with ⟨d'', read⟩
  cases read with
  | none =>
    rcases Option.isSome_iff_exists.mp (hnone rfl) with ⟨e, he⟩
    have he : d''.error = some e := he
    simp [he]
  | some read =>
    cases returns with
    | none => exact Option.or_none.symm
    | some text =>
      rw [Option.toList_some, List.map_singleton, firstFailure_cons]
      have hreturns := d''.error_readIn_update scope text
        fun t c => { c with methods := c.methods ++ [⟨name, vars, read, some t, []⟩] }
      rw [show firstFailure [] = none from rfl, Option.or_none]
      refine Eq.trans ?_ hreturns
      dsimp only
      rcases d''.readIn scope text with ⟨_, _ | t⟩ <;> rfl

/-- A step keeps an earlier error, or else has that of the first text which it cannot read. -/
theorem error_step (s : DraftStep) :
    (d.step s).error = d.error.or (firstFailure (d.readings s)) := by
  cases s with
  | kind kind | enumeration constants | annotate a | annotateMethod a | annotateParam position a =>
    exact Option.or_none.symm
  | superClass text | interface text | field name text annotations =>
    rw [readings, firstFailure_cons, show firstFailure [] = none from rfl, Option.or_none]
    exact d.error_readIn_update d.declaration.typeParams text _
  | typeParam name bounds =>
    rw [step, addTypeParam]
    dsimp only
    rw [readAll_fst]
    rfl
  | method name typeParams params returns => exact d.error_addMethod name typeParams params returns

/-- Steps keep an earlier error, or else have that of the first text which cannot be read. -/
theorem error_steps (steps : List DraftStep) :
    (steps.foldl step d).error = d.error.or (firstFailure (d.allReadings steps)) := by
  induction steps generalizing d with
  | nil => exact Option.or_none.symm
  | cons s steps ih =>
    rw [List.foldl_cons, ih, error_step, allReadings, firstFailure_append, Option.or_assoc]

end ClassDraft

/-! ## What is left as it was -/

namespace Registry

theorem class?_setTypeParameters (r : Registry) (c : ClassId) (params : List TypeVarId)
    (c' : ClassId) :
    (r.setTypeParameters c params).class? c' =
      if c' = c then (r.class? c').map ({ · with typeParams := params }) else r.class? c' := by
  rw [setTypeParameters, class?, class?, Array.getElem?_modify]
  simp only [ClassId.index_toNat_inj, eq_comm]

theorem class?_define_of_ne (r : Registry) {c c' : ClassId} (hne : c' ≠ c) (d : ClassDef) :
    (r.define c d).class? c' = r.class? c' := by
  rw [define]
  split
  · rfl
  · rw [class?, class?]
    dsimp only
    rw [Array.getElem?_setIfInBounds_ne fun h => hne (ClassId.index_toNat_inj.mp h).symm]

end Registry

namespace ClassDraft

/--
What steps of a draft leave as it was: all type variables, and all classes but its own; of that one
only the type parameters are published, if there is a step that declares one.
-/
structure Publishes (published : Bool) (d d' : ClassDraft) : Prop where
  id_eq : d'.id = d.id
  class?_eq : ∀ c, d'.registry.class? c =
    if published = true ∧ c = d.id then
      (d.registry.class? c).map ({ · with typeParams := d'.declaration.typeParams })
    else d.registry.class? c
  params_eq : published = false → d'.declaration.typeParams = d.declaration.typeParams
  size_le : d.registry.typeParams.size ≤ d'.registry.typeParams.size
  typeParam_eq : d'.registry.typeParams.size ≤ UInt32.size →
    ∀ i < d.registry.typeParams.size, d'.registry.typeParams[i]? = d.registry.typeParams[i]?

theorem publishes_of_registry_eq {d d' : ClassDraft} (hid : d'.id = d.id)
    (hregistry : d'.registry = d.registry)
    (hparams : d'.declaration.typeParams = d.declaration.typeParams) : Publishes false d d' := by
  constructor
  · exact hid
  · simp [hregistry]
  · exact fun _ => hparams
  · rw [hregistry]
  · intro _ i _
    rw [hregistry]

theorem Publishes.trans {d d' d'' : ClassDraft} {p q : Bool} (h : Publishes p d d')
    (h' : Publishes q d' d'') : Publishes (p || q) d d'' := by
  constructor
  · rw [h'.id_eq, h.id_eq]
  · intro c
    rw [h'.class?_eq, h.class?_eq, h.id_eq]
    by_cases hc : c = d.id
    · cases q with
      | false => simp [hc, h'.params_eq rfl]
      | true => cases p <;> simp [hc, Function.comp_def]
    · simp [hc]
  · intro hpq
    rcases Bool.or_eq_false_iff.mp hpq with ⟨hp, hq⟩
    rw [h'.params_eq hq, h.params_eq hp]
  · exact h.size_le.trans h'.size_le
  · intro hsize i hi
    rw [h'.typeParam_eq hsize i (hi.trans_le h.size_le),
      h.typeParam_eq (h'.size_le.trans hsize) i hi]

variable (d : ClassDraft)

theorem publishes_afterReading (failure : Option TypeError) :
    Publishes false d (d.afterReading failure) :=
  publishes_of_registry_eq rfl rfl rfl

theorem publishes_update {f : ClassDef → ClassDef} (hf : ∀ c, (f c).typeParams = c.typeParams) :
    Publishes false d (d.update f) :=
  publishes_of_registry_eq rfl rfl (hf _)

theorem publishes_readIn (scope : List TypeVarId) (text : String) :
    Publishes false d (d.readIn scope text).1 := by
  rw [readIn_fst]
  exact d.publishes_afterReading _

theorem publishes_readIn_update (scope : List TypeVarId) (text : String)
    {f : TypeExpr → ClassDef → ClassDef} (hf : ∀ t c, (f t c).typeParams = c.typeParams) :
    Publishes false d (match d.readIn scope text with
      | (d, some t) => d.update (f t)
      | (d, none) => d) := by
  have hread := d.publishes_readIn scope text
  generalize d.readIn scope text = read at hread ⊢
  rcases read with ⟨d', _ | t⟩
  · exact hread
  · exact hread.trans (d'.publishes_update (hf t))

/-- A new type variable leaves the others alone. -/
theorem publishes_enter (p : TypeParamDef) :
    Publishes false d { d with registry := (d.registry.addTypeParam p).1 } where
  id_eq := rfl
  class?_eq c := by simp [Registry.addTypeParam, Registry.class?]
  params_eq _ := rfl
  size_le := by simp [Registry.addTypeParam]
  typeParam_eq _ i hi := by simp [Registry.addTypeParam, Array.getElem?_push, Nat.ne_of_lt hi]

theorem publishes_addVars (names : List String) : Publishes false d (d.addVars names).1 := by
  induction names generalizing d with
  | nil => exact publishes_of_registry_eq rfl rfl rfl
  | cons name names ih => exact (d.publishes_enter ⟨name, []⟩).trans (ih _)

theorem publishes_addMethod (name : String) (typeParams : List String)
    (params : List (String × String)) (returns : Option String) :
    Publishes false d (d.addMethod name typeParams params returns) := by
  have hvars := d.publishes_addVars typeParams
  rw [addMethod]
  generalize d.addVars typeParams = entered at hvars ⊢
  rcases entered with ⟨entered, vars⟩
  dsimp only at hvars ⊢
  set scope := entered.declaration.typeParams ++ vars
  have hparams : Publishes false entered (entered.readParams scope params).1 := by
    rw [(readParams_fst ..).1]
    exact entered.publishes_afterReading _
  generalize entered.readParams scope params = read at hparams ⊢
  rcases read with ⟨read, _ | types⟩
  · exact hvars.trans hparams
  · have hbefore := hvars.trans hparams
    cases returns with
    | none => exact hbefore.trans (read.publishes_update fun _ => rfl)
    | some text =>
      have hreturn := read.publishes_readIn scope text
      dsimp only
      generalize read.readIn scope text = returned at hreturn ⊢
      rcases returned with ⟨last, _ | t⟩
      · exact hbefore.trans hreturn
      · exact (hbefore.trans hreturn).trans (last.publishes_update fun _ => rfl)

/-- A type parameter is a new variable, and the class has it at once. -/
theorem publishes_addTypeParam (name : String) (bounds : List String) :
    Publishes true d (d.addTypeParam name bounds) := by
  rw [addTypeParam]
  dsimp only
  rw [readAll_fst]
  have hsize : ∀ p, ((d.registry.typeParams.push ⟨name, []⟩).setIfInBounds
      d.registry.nextTypeVar.index.toNat p).size = d.registry.typeParams.size + 1 := by
    simp
  refine ⟨rfl, fun c => ?_, fun h => absurd h.symm Bool.false_ne_true,
    (Nat.le_succ _).trans_eq (hsize _).symm, fun hlimit i hi => ?_⟩
  · change ((d.registry.addTypeParam ⟨name, []⟩).1.setTypeParameters d.id _).class? c = _
    rw [Registry.class?_setTypeParameters]
    simp only [true_and]
    rfl
  · have hlimit : d.registry.typeParams.size + 1 ≤ UInt32.size := (hsize _).symm.trans_le hlimit
    have hvar : d.registry.nextTypeVar.index.toNat = d.registry.typeParams.size := by
      rw [Registry.nextTypeVar, Nat.toUInt32_eq, UInt32.toNat_ofNat_of_lt' (by omega)]
    change ((d.registry.typeParams.push ⟨name, []⟩).setIfInBounds
      d.registry.nextTypeVar.index.toNat _)[i]? = _
    rw [hvar, Array.getElem?_setIfInBounds_ne (Nat.ne_of_gt hi), Array.getElem?_push_lt hi,
      Array.getElem?_eq_getElem hi]

/-- A step publishes type parameters if it declares one. -/
theorem publishes_step (s : DraftStep) : Publishes s.declaresParam d (d.step s) := by
  cases s with
  | kind kind | enumeration constants | annotate a | annotateMethod a | annotateParam position a =>
    exact publishes_of_registry_eq rfl rfl rfl
  | superClass text | interface text | field name text annotations =>
    exact d.publishes_readIn_update d.declaration.typeParams text fun _ _ => rfl
  | typeParam name bounds => exact d.publishes_addTypeParam name bounds
  | method name typeParams params returns =>
    exact d.publishes_addMethod name typeParams params returns

theorem publishes_steps (steps : List DraftStep) :
    Publishes (steps.any (·.declaresParam)) d (steps.foldl step d) := by
  induction steps generalizing d with
  | nil => exact publishes_of_registry_eq rfl rfl rfl
  | cons s steps ih =>
    rw [List.any_cons, List.foldl_cons]
    exact (d.publishes_step s).trans (ih _)

end ClassDraft

namespace Registry

/-! ## Declarations -/

theorem class?_push_of_ne (r : Registry) (d : ClassDef) {c : ClassId} (hne : c ≠ r.nextClass) :
    (r.push d).class? c = r.class? c := by
  rw [class?, class?, push]
  dsimp only
  rcases Nat.lt_trichotomy c.index.toNat r.classes.size with hlt | heq | hgt
  · rw [Array.getElem?_push_lt hlt, Array.getElem?_eq_getElem hlt]
  · have hsize : r.classes.size < UInt32.size := heq ▸ c.index.toNat_lt
    exact absurd (ClassId.index_toNat_inj.mp (heq.trans (toNat_nextClass hsize).symm)) hne
  · rw [Array.getElem?_eq_none (by simpa using Nat.succ_le_of_lt hgt),
      Array.getElem?_eq_none (Nat.le_of_lt hgt)]

/-- Interning a name changes at most the class that it gets. -/
theorem class?_intern_of_ne (r : Registry) {name : String} {c : ClassId}
    (hne : c ≠ (r.intern name).2) : (r.intern name).1.class? c = r.class? c := by
  rw [intern] at hne ⊢
  split
  · rfl
  · rename_i hnew
    rw [hnew] at hne
    exact r.class?_push_of_ne _ hne

/-- Interning a name keeps the classes there are. -/
theorem class?_intern_of_some {r : Registry} {c : ClassId} {d : ClassDef}
    (hd : r.class? c = some d) (name : String) : (r.intern name).1.class? c = some d := by
  rw [intern]
  split
  · exact hd
  · have hlt : c.index.toNat < r.classes.size := (Array.getElem?_eq_some_iff.mp hd).1
    rw [class?, push]
    dsimp only
    rw [Array.getElem?_push_lt hlt, ← Array.getElem?_eq_getElem hlt]
    exact hd

/-- A new name is interned with a class that has no more than the name. -/
theorem class?_intern_new {r : Registry} {name : String} (hnew : r.index.find? name = none)
    (hsize : r.classes.size < UInt32.size) :
    (r.intern name).1.class? (r.intern name).2 = some { name := name } := by
  rw [intern, hnew]
  change (r.push { name := name }).classes[r.nextClass.index.toNat]? = _
  rw [toNat_nextClass hsize]
  exact Array.getElem?_push_size

theorem typeParams_intern (r : Registry) (name : String) :
    (r.intern name).1.typeParams = r.typeParams := by
  rw [intern]
  split <;> rfl

/-- The draft of a class after all its steps. -/
def draft (r : Registry) (name : String) (steps : List DraftStep) : ClassDraft :=
  steps.foldl ClassDraft.step (ClassDraft.start r name)

theorem publishes_draft (r : Registry) (name : String) (steps : List DraftStep) :
    (ClassDraft.start r name).Publishes (steps.any (·.declaresParam)) (r.draft name steps) :=
  ClassDraft.publishes_steps _ steps

/-- A declaration fails if a text is not read, with the first reason why one is not. -/
theorem declare_snd (r : Registry) (name : String) (steps : List DraftStep) :
    (r.declare name steps).2 =
      match firstFailure ((ClassDraft.start r name).allReadings steps) with
      | some e => .error e
      | none => .ok (r.intern name).2 := by
  have herror := (ClassDraft.start r name).error_steps steps
  have hid : (r.draft name steps).id = (r.intern name).2 := (r.publishes_draft name steps).id_eq
  rw [show (ClassDraft.start r name).error = none from rfl, Option.none_or] at herror
  rw [declare, ClassDraft.finish, ← herror]
  cases (steps.foldl ClassDraft.step (ClassDraft.start r name)).error with
  | some e => rfl
  | none => exact congrArg Except.ok hid

/-- A declaration that fails leaves the registry of its draft. -/
theorem declare_fst_of_error {r : Registry} {name : String} {steps : List DraftStep}
    {e : TypeError} (h : (r.declare name steps).2 = .error e) :
    (r.declare name steps).1 = (r.draft name steps).registry := by
  rw [declare, ClassDraft.finish] at h ⊢
  rw [draft]
  cases herror : (steps.foldl ClassDraft.step (ClassDraft.start r name)).error with
  | some e => rfl
  | none => simp [herror] at h

/-- A declaration changes at most the class of its name. -/
theorem class?_declare_of_ne (r : Registry) {name : String} (steps : List DraftStep) {c : ClassId}
    (hne : c ≠ (r.intern name).2) : (r.declare name steps).1.class? c = r.class? c := by
  have hdraft : (r.draft name steps).registry.class? c = r.class? c := by
    rw [(r.publishes_draft name steps).class?_eq, if_neg fun h => hne h.2]
    exact r.class?_intern_of_ne hne
  have hid : (r.draft name steps).id = (r.intern name).2 := (r.publishes_draft name steps).id_eq
  rw [declare, ClassDraft.finish, ← draft]
  split
  · exact hdraft
  · rw [class?_define_of_ne _ (by rwa [hid])]
    exact hdraft

theorem typeParams_declare (r : Registry) (name : String) (steps : List DraftStep) :
    (r.declare name steps).1.typeParams = (r.draft name steps).registry.typeParams := by
  rw [declare, ClassDraft.finish, ← draft]
  split
  · rfl
  · rw [define]
    split <;> rfl

/-- A declaration leaves all type variables as they are. -/
theorem typeParam?_declare {r : Registry} {name : String} {steps : List DraftStep}
    (hvars : (r.declare name steps).1.typeParams.size ≤ UInt32.size) {v : TypeVarId}
    {p : TypeParamDef} (hv : r.typeParam? v = some p) :
    (r.declare name steps).1.typeParam? v = some p := by
  have hlt : v.index.toNat < r.typeParams.size := (Array.getElem?_eq_some_iff.mp hv).1
  rw [typeParams_declare] at hvars
  have hkept := (r.publishes_draft name steps).typeParam_eq hvars v.index.toNat
  rw [show (ClassDraft.start r name).registry.typeParams = r.typeParams from
    r.typeParams_intern name] at hkept
  rw [typeParam?, typeParams_declare, hkept hlt]
  exact hv

/-- What a declaration that fails leaves of the classes: the one of its name has new parameters. -/
theorem class?_declare_of_error {r : Registry} {name : String} {steps : List DraftStep}
    {e : TypeError} (h : (r.declare name steps).2 = .error e) (c : ClassId) :
    (r.declare name steps).1.class? c =
      if steps.any (·.declaresParam) = true ∧ c = (r.intern name).2 then
        ((r.intern name).1.class? c).map
          ({ · with typeParams := (r.draft name steps).declaration.typeParams })
      else (r.intern name).1.class? c := by
  rw [declare_fst_of_error h]
  exact (r.publishes_draft name steps).class?_eq c

/--
A declaration in steps leaves all other classes and all type variables as they are.  It fails
exactly if a text is not read where it stands, with the error of the first such text.  If it fails,
the classes there were are what they were, up to the class of that name: it has the type parameters
that were declared for it.  A new name is left with a class that has no more than these.
-/
theorem declare_spares (r : Registry) (name : String) (steps : List DraftStep)
    (hvars : (r.declare name steps).1.typeParams.size ≤ UInt32.size) :
    (∀ c ≠ (r.intern name).2, (r.declare name steps).1.class? c = r.class? c) ∧
    (∀ v p, r.typeParam? v = some p → (r.declare name steps).1.typeParam? v = some p) ∧
    ((r.declare name steps).2 =
      match firstFailure ((ClassDraft.start r name).allReadings steps) with
      | some e => .error e
      | none => .ok (r.intern name).2) ∧
    ∀ e, (r.declare name steps).2 = .error e →
      (∀ c d, r.class? c = some d →
        ((r.declare name steps).1.class? c = some d ↔
          (c = (r.intern name).2 → steps.any (·.declaresParam) = true →
            d.typeParams = (r.draft name steps).declaration.typeParams))) ∧
      (r.index.find? name = none → r.classes.size < UInt32.size →
        (r.declare name steps).1.class? (r.intern name).2 =
          some { name := name, typeParams := (r.draft name steps).declaration.typeParams }) := by
  refine ⟨fun c hc => r.class?_declare_of_ne steps hc, fun v p => typeParam?_declare hvars,
    r.declare_snd name steps, fun e he => ⟨fun c d hd => ?_, fun hnew hsize => ?_⟩⟩
  · rw [class?_declare_of_error he, class?_intern_of_some hd]
    split
    · rename_i h
      rw [Option.map_some, Option.some.injEq]
      constructor
      · intro heq _ _
        rw [← heq]
      · intro heq
        rw [← heq h.2 h.1]
    · rename_i h
      exact iff_of_true rfl fun hc hany => absurd ⟨hany, hc⟩ h
  · rw [class?_declare_of_error he, class?_intern_new hnew hsize]
    split
    · rfl
    · rename_i h
      have hnone : steps.any (·.declaresParam) = false := by simpa using h
      have hparams : (r.draft name steps).declaration.typeParams = [] :=
        (r.publishes_draft name steps).params_eq hnone
      rw [hparams]

/-- A declaration of `java.util.List` that has a type parameter and then names no class. -/
def brokenList : List DraftStep := [.typeParam "X" [], .superClass "Missing"]

/-- A declaration that fails leaves other classes and type variables as they are. -/
theorem declare_spares_brokenList :
    (bootstrap.declare "java.util.List" brokenList).2 = .error (.unknownType "Missing") ∧
      (∀ c ≠ Bootstrap.wellKnown.list,
        (bootstrap.declare "java.util.List" brokenList).1.class? c = bootstrap.class? c) ∧
      ∀ v p, bootstrap.typeParam? v = some p →
        (bootstrap.declare "java.util.List" brokenList).1.typeParam? v = some p := by
  have hid : (bootstrap.intern "java.util.List").2 = Bootstrap.wellKnown.list := by decide +kernel
  have hvars : (bootstrap.declare "java.util.List" brokenList).1.typeParams.size ≤
      UInt32.size := by
    decide +kernel
  rcases declare_spares bootstrap "java.util.List" brokenList hvars with ⟨hclasses, hparams, -, -⟩
  rw [hid] at hclasses
  exact ⟨by decide +kernel, hclasses, hparams⟩

/-- The class that could not be declared anew has the new type parameter. -/
theorem brokenList_typeParams :
    (bootstrap.declare "java.util.List" brokenList).2 = .error (.unknownType "Missing") ∧
      (bootstrap.class? Bootstrap.wellKnown.list).map (·.typeParams) = some [⟨4⟩] ∧
      ((bootstrap.declare "java.util.List" brokenList).1.class?
        Bootstrap.wellKnown.list).map (·.typeParams) = some [⟨18⟩] := by
  decide +kernel

end Registry

end TypeConversion
