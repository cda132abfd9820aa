import TypeConversion.Proofs.Substitution.View

/-!
# Lookup in contexts agrees with substitution

Nodes that denote the same expression cannot be told apart by the erasures of their type arguments,
at any depth, and these erasures are those of the arguments of the expression.

**Results**

* `Denotes.actsAs`: a node acts as the expression that it denotes;
* `acts_as_substituted`: views of types with closed arguments, and the types of fields and
  parameters seen from a class without type parameters, act as what substitution leads to.
-/

namespace TypeConversion

namespace TypeExpr

/-- The argument at a path of positions; the first argument if the path is empty. -/
def generic? : List Nat → TypeExpr → Option TypeExpr
  | [], t => t.arguments.head?
  | i :: path, t => argumentAt? (i :: path) t

end TypeExpr

namespace Node

open Walk Registry

variable {r : Registry}

/-- The erasure of the type argument of a node at a path of positions. -/
def erasureAt (r : Registry) (limit : Nat) (path : List Nat) (n : Option Node) :
    Walk (Option Erasure) := do
  resolveOption r limit (← getGeneric r limit path n)

/-- The erasure that is found at a path of positions. -/
def ErasureAt (r : Registry) (path : List Nat) (n : Node) (e : Option Erasure) : Prop :=
  Finds (fun limit => erasureAt r limit path (some n)) e

/-- A node behaves as an expression does, whose variables are replaced. -/
structure ActsAs (r : Registry) (n : Node) (t : TypeExpr) : Prop where
  resolves : ResolvesTo r n t.erasure?
  /-- The same is found everywhere as in the node of the expression itself. -/
  like : ∀ path e, ErasureAt r path n e ↔ ErasureAt r path (ofExpr t) e
  /-- At an argument of the expression its erasure is found. -/
  at_argument : ∀ path u, t.generic? path = some u → ErasureAt r path n u.erasure?
  /-- Where there is no argument nothing is found, unless a class is left without arguments. -/
  nowhere : t.IsComplete r → ∀ path, t.generic? path = none → ErasureAt r path n none

/-! ## Arguments -/

/-- The type arguments of an optional node. -/
def ArgumentsAre (r : Registry) (n : Option Node) (args : List (Option Node)) : Prop :=
  Finds (fun limit => genericsOption r limit n) args

/-- The argument at a path of positions. -/
def GenericIs (r : Registry) (path : List Nat) (n m : Option Node) : Prop :=
  Finds (fun limit => genericAt r limit path n) m

theorem genericIs_nil_iff (n m : Option Node) : GenericIs r [] n m ↔ m = n := by
  simp only [GenericIs, genericAt, finds_const_iff, Option.some.injEq]
  exact eq_comm

theorem genericAt_none (limit : Nat) (path : List Nat) :
    genericAt r limit path none = some none := by
  cases path with
  | nil => rfl
  | cons i path => simp [genericAt, genericsOption]

theorem genericAt_cons (limit : Nat) (i : Nat) (path : List Nat) (n : Option Node) :
    genericAt r limit (i :: path) n =
      genericsOption r limit n >>= fun args => genericAt r limit path args[i]?.join := by
  rw [genericAt]
  refine congrArg _ (funext fun args => ?_)
  cases args[i]? with
  | none => exact (genericAt_none limit path).symm
  | some arg => rfl

theorem genericIs_none_iff (path : List Nat) (m : Option Node) :
    GenericIs r path none m ↔ m = none := by
  simp only [GenericIs, genericAt_none, finds_const_iff, Option.some.injEq]
  exact eq_comm

theorem genericIs_cons_iff (i : Nat) (path : List Nat) (n m : Option Node) :
    GenericIs r (i :: path) n m ↔
      ∃ args, ArgumentsAre r n args ∧ GenericIs r path args[i]?.join m := by
  simp only [GenericIs, genericAt_cons]
  exact finds_bind_iff (genericsOption_steady r n) fun args => genericAt_steady r path _

/-- The empty path leads to the first argument. -/
theorem getGeneric_nil (limit : Nat) (n : Option Node) :
    getGeneric r limit [] n = genericAt r limit [0] n := by
  rw [getGeneric, genericAt_cons]
  refine congrArg _ (funext fun args => ?_)
  cases args <;> rfl

/-- The positions of a path, or the first one. -/
def positions : List Nat → List Nat
  | [] => [0]
  | i :: path => i :: path

theorem erasureAt_iff (path : List Nat) (n : Node) (e : Option Erasure) :
    ErasureAt r path n e ↔
      ∃ m, GenericIs r (positions path) (some n) m ∧
        Finds (fun limit => resolveOption r limit m) e := by
  have hpath : ∀ limit, getGeneric r limit path (some n) =
      genericAt r limit (positions path) (some n) := by
    intro limit
    cases path with
    | nil => exact getGeneric_nil limit _
    | cons i path => rfl
  simp only [ErasureAt, erasureAt, hpath]
  exact finds_bind_iff (genericAt_steady r _ _) (resolveOption_steady r)

theorem generic?_eq (path : List Nat) (t : TypeExpr) :
    t.generic? path = t.argumentAt? (positions path) := by
  cases path with
  | cons i path => rfl
  | nil =>
    rw [TypeExpr.generic?, positions, TypeExpr.argumentAt?, List.head?_eq_getElem?]
    cases t.arguments[0]? <;> rfl

/-! ## Nodes of the same meaning -/

/-- Optional nodes that are the same or denote the same. -/
def Alike (r : Registry) (a b : Option Node) : Prop :=
  a = b ∨ ∃ n m t, a = some n ∧ b = some m ∧ Denotes r n t ∧ Denotes r m t

theorem Alike.symm {a b : Option Node} (h : Alike r a b) : Alike r b a := by
  rcases h with rfl | ⟨n, m, t, rfl, rfl, hn, hm⟩
  · exact .inl rfl
  · exact .inr ⟨m, n, t, rfl, rfl, hm, hn⟩

/-- Arguments that denote the same are alike, one by one. -/
theorem alike_of_argumentsDenote {as bs : List (Option Node)} {t : TypeExpr}
    (ha : ArgumentsDenote r as t) (hb : ArgumentsDenote r bs t) : List.Forall₂ (Alike r) as bs := by
  rw [ArgumentsDenote] at ha hb
  generalize t.arguments = ts at ha hb
  induction ha generalizing bs with
  | nil =>
    cases hb
    exact .nil
  | cons ha _ ih =>
    cases hb with
    | cons hb hrest =>
      rcases ha with ⟨n, rfl, hn⟩
      rcases hb with ⟨m, rfl, hm⟩
      exact .cons (.inr ⟨n, m, _, rfl, rfl, hn, hm⟩) (ih hrest)

/-- Nodes that are alike have arguments that are. -/
theorem Alike.arguments {a b : Option Node} (h : Alike r a b) {as : List (Option Node)}
    (ha : ArgumentsAre r a as) : ∃ bs, ArgumentsAre r b bs ∧ List.Forall₂ (Alike r) as bs := by
  rcases h with rfl | ⟨n, m, t, rfl, rfl, hn, hm⟩
  · exact ⟨as, ha, List.forall₂_same.mpr fun a _ => .inl rfl⟩
  · rcases hn.genericsAre with ⟨as', has, hraw, hdenote⟩
    rcases hm.genericsAre with ⟨bs, hbs, hraw', hdenote'⟩
    obtain rfl : as' = as := Finds.unique (generics_steady r n) has ha
    refine ⟨bs, hbs, ?_⟩
    by_cases ht : t.IsRaw r
    · obtain rfl : as' = bs := Finds.unique (generics_steady r _) (hraw ht) (hraw' ht)
      exact List.forall₂_same.mpr fun a _ => .inl rfl
    · exact alike_of_argumentsDenote (hdenote ht) (hdenote' ht)

theorem alike_getElem {as bs : List (Option Node)} (h : List.Forall₂ (Alike r) as bs) (i : Nat) :
    Alike r as[i]?.join bs[i]?.join := by
  induction h generalizing i with
  | nil => exact .inl rfl
  | cons h _ ih =>
    cases i with
    | zero => exact h
    | succ i => exact ih i

/-- Nodes that are alike have arguments that are, at every path. -/
theorem Alike.genericIs {path : List Nat} {a b m : Option Node} (h : Alike r a b)
    (hm : GenericIs r path a m) : ∃ m', GenericIs r path b m' ∧ Alike r m m' := by
  induction path generalizing a b with
  | nil =>
    obtain rfl := (genericIs_nil_iff a m).mp hm
    exact ⟨b, (genericIs_nil_iff ..).mpr rfl, h⟩
  | cons i path ih =>
    rcases (genericIs_cons_iff ..).mp hm with ⟨as, has, hm⟩
    rcases h.arguments has with ⟨bs, hbs, hargs⟩
    rcases ih (alike_getElem hargs i) hm with ⟨m', hm', hlike⟩
    exact ⟨m', (genericIs_cons_iff ..).mpr ⟨bs, hbs, hm'⟩, hlike⟩

theorem Alike.resolves {a b : Option Node} (h : Alike r a b) {e : Option Erasure}
    (ha : Finds (fun limit => resolveOption r limit a) e) :
    Finds (fun limit => resolveOption r limit b) e := by
  rcases h with rfl | ⟨n, m, t, rfl, rfl, hn, hm⟩
  · exact ha
  · obtain rfl := Finds.unique (resolve_steady r n) hn.resolvesTo ha
    exact hm.resolvesTo

/-- Nodes that are alike have the same erasures everywhere. -/
theorem Alike.erasureAt {n m : Node} (h : Alike r (some n) (some m)) {path : List Nat}
    {e : Option Erasure} (he : ErasureAt r path n e) : ErasureAt r path m e := by
  rcases (erasureAt_iff ..).mp he with ⟨a, ha, he⟩
  rcases h.genericIs ha with ⟨b, hb, hlike⟩
  exact (erasureAt_iff ..).mpr ⟨b, hb, hlike.resolves he⟩

/-! ## Nodes and what they denote -/

/-- The arguments stand at the places of those that they denote. -/
theorem ArgumentsDenote.getElem? {args : List (Option Node)} {t : TypeExpr}
    (h : ArgumentsDenote r args t) (i : Nat) :
    (∃ m u, args[i]? = some (some m) ∧ t.arguments[i]? = some u ∧ Denotes r m u) ∨
      args[i]? = none ∧ t.arguments[i]? = none := by
  rw [ArgumentsDenote] at h
  generalize t.arguments = ts at h
  induction h generalizing i with
  | nil => exact .inr ⟨rfl, rfl⟩
  | cons h _ ih =>
    cases i with
    | zero =>
      rcases h with ⟨m, rfl, hm⟩
      exact .inl ⟨m, _, rfl, rfl, hm⟩
    | succ i => exact ih i

/-- An argument of what a node denotes is denoted by the argument of the node. -/
theorem Denotes.exists_genericIs {path : List Nat} {n : Node} {t u : TypeExpr}
    (h : Denotes r n t) (hu : t.argumentAt? path = some u) :
    ∃ m, GenericIs r path (some n) (some m) ∧ Denotes r m u := by
  induction path generalizing n t with
  | nil =>
    obtain rfl : t = u := by simpa [TypeExpr.argumentAt?] using hu
    exact ⟨n, (genericIs_nil_iff ..).mpr rfl, h⟩
  | cons i path ih =>
    rcases Option.bind_eq_some_iff.mp hu with ⟨a, ha, hu⟩
    rcases h.genericsAre with ⟨args, hargs, -, hdenote⟩
    have hraw : ¬t.IsRaw r := by
      intro hraw
      cases t <;> simp [TypeExpr.IsRaw, TypeExpr.arguments] at hraw ha
    rcases (hdenote hraw).getElem? i with ⟨m, a', hm, ha', hdenotes⟩ | ⟨-, hnone⟩
    · obtain rfl : a = a' := Option.some.inj (ha.symm.trans ha')
      rcases ih hdenotes hu with ⟨m', hm', hdenotes'⟩
      exact ⟨m', (genericIs_cons_iff ..).mpr ⟨args, hargs, by simpa [hm] using hm'⟩, hdenotes'⟩
    · simp [ha] at hnone

/-- Where what a node denotes has no argument the node has none. -/
theorem Denotes.genericIs_none {path : List Nat} {n : Node} {t : TypeExpr} (h : Denotes r n t)
    (ht : t.IsComplete r) (hnone : t.argumentAt? path = none) :
    GenericIs r path (some n) none := by
  induction path generalizing n t with
  | nil => simp [TypeExpr.argumentAt?] at hnone
  | cons i path ih =>
    rcases h.genericsAre with ⟨args, hargs, -, hdenote⟩
    refine (genericIs_cons_iff ..).mpr ⟨args, hargs, ?_⟩
    rcases (hdenote ht.not_isRaw).getElem? i with ⟨m, u, hm, hu, hdenotes⟩ | ⟨hm, -⟩
    · have hcomplete : u.IsComplete r := by
        cases t with
        | parameterized raw ts owner =>
          exact (TypeExpr.allComplete_iff r ts).mp ht u (List.mem_of_getElem? hu)
        | plain _ | genericArray _ | wildcard _ _ | typeVar _ =>
          simp [TypeExpr.arguments] at hu
      have hnone' : u.argumentAt? path = none := by
        simpa [TypeExpr.argumentAt?, hu] using hnone
      simpa [hm] using ih hdenotes hcomplete hnone'
    · simpa [hm] using (genericIs_none_iff path _).mpr rfl

/-- A node acts as the expression that it denotes. -/
theorem Denotes.actsAs {n : Node} {t : TypeExpr} (h : Denotes r n t) : ActsAs r n t where
  resolves := h.resolvesTo
  like path e := by
    have hlike : Alike r (some n) (some (ofExpr t)) :=
      .inr ⟨n, _, t, rfl, rfl, h, .closed h.isClosed⟩
    exact ⟨hlike.erasureAt, hlike.symm.erasureAt⟩
  at_argument path u hu := by
    rw [generic?_eq] at hu
    rcases h.exists_genericIs hu with ⟨m, hm, hdenotes⟩
    exact (erasureAt_iff ..).mpr ⟨some m, hm, hdenotes.resolvesTo⟩
  nowhere ht path hnone := by
    rw [generic?_eq] at hnone
    refine (erasureAt_iff ..).mpr ⟨none, h.genericIs_none ht hnone, ?_⟩
    exact finds_const_iff.mpr rfl

/-! ## Views and declared types -/

/-- A class without type parameters represents itself. -/
theorem represents_ofClass {c : ClassId} (hparams : r.typeParameters c = []) :
    Represents r (ofClass c) (.ofClass c) :=
  ⟨.closed trivial, .inr hparams⟩

theorem isComplete_ofClass {c : ClassId} (hparams : r.typeParameters c = []) :
    (TypeExpr.ofClass c).IsComplete r :=
  fun hraw => hraw.2 hparams

/-- A class applied to closed arguments of the right number represents itself. -/
theorem represents_applyTo {c : ClassId} {args : List TypeExpr}
    (hlength : args.length = (r.typeParameters c).length) (hargs : ∀ a ∈ args, a.IsClosed) :
    Represents r (ofExpr (c.applyTo args)) (c.applyTo args) := by
  rw [ofExpr, ClassId.applyTo]
  by_cases hempty : args = []
  · subst hempty
    exact represents_ofClass (List.eq_nil_of_length_eq_zero hlength.symm)
  · simp only [hempty, if_false]
    refine ⟨.closed ⟨(TypeExpr.allClosed_iff args).mpr hargs, trivial⟩, ?_⟩
    simpa [TypeExpr.IsContext] using hlength

theorem isComplete_applyTo {c : ClassId} {args : List TypeExpr}
    (hlength : args.length = (r.typeParameters c).length)
    (hargs : ∀ a ∈ args, a.IsComplete r) : (c.applyTo args).IsComplete r := by
  rw [ClassId.applyTo]
  by_cases hempty : args = []
  · subst hempty
    exact isComplete_ofClass (List.eq_nil_of_length_eq_zero hlength.symm)
  · simp only [hempty, if_false]
    exact (TypeExpr.allComplete_iff r args).mpr hargs

/-- What a class makes of an ancestor: the expression in which its parameters are bound. -/
def SeenAs (r : Registry) (declaring implementation : ClassId) (s : TypeExpr) : Prop :=
  Finds (fun limit => r.eagerView limit (.ofClass implementation) (.ofClass declaring)) (some s) ∧
    s.erasure? = some (.ofClass declaring)

/-- A declared type seen from a class acts as the type in which the parameters are replaced. -/
theorem exists_seenFrom (hi : r.AcyclicInheritance) (hp : r.FullyParameterized)
    {declaring implementation : ClassId} (hparams : r.typeParameters implementation = [])
    {s : TypeExpr} (hs : SeenAs r declaring implementation s) {t : TypeExpr}
    (ht : t.Proper r (r.typeParameters declaring)) :
    ∃ n, Finds (fun limit => seenFrom r limit declaring implementation t) n ∧
      ActsAs r n (t.instantiate (r.bindings s)) ∧ (t.instantiate (r.bindings s)).IsComplete r := by
  rcases hs with ⟨hfound, herasure⟩
  obtain ⟨view, found, hview, hfound', hrel⟩ :=
    (represents_ofClass hparams).viewIs hi hp (.ofClass declaring)
  obtain rfl := Finds.unique (r.eagerView_steady _ _) hfound hfound'
  rcases hfound with ⟨limit, hlimit⟩
  have hdescends := (descends_of_eagerView limit).1 _ _ _ hlimit
  cases hrel with
  | @some v _ hv =>
    have hscope : r.parametersOf (.ofClass declaring) = r.typeParameters declaring := by
      simp [parametersOf]
    have hproper : t.Proper r (v.expr.scope r) := by
      rw [hv.scope_eq herasure, hscope]
      exact ht
    refine ⟨within (some v) t, ?_, (hv.denotes.inContext hv.isContext hproper).actsAs, ?_⟩
    · rcases hview with ⟨limit, hview⟩
      exact ⟨limit, by simp [seenFrom, asClass, hview]⟩
    · obtain ⟨hcontext, hcomplete⟩ := hdescends.isContext_and_isComplete hi hp
        ⟨.inr hparams, isComplete_ofClass hparams⟩
      refine ht.isComplete_instantiate fun w hw => ?_
      rw [← hscope, ← scope_eq_parametersOf hcontext herasure] at hw
      exact exists_bindings_isComplete hcontext hcomplete hw

/-- What the declared type of a method parameter mentions. -/
theorem proper_of_declaredType (hp : r.FullyParameterized) {p : MethodParameter} {t : TypeExpr}
    (h : p.declaredType r = .ok (some t)) : t.Proper r (r.typeParameters p.declaring) := by
  rw [MethodParameter.declaredType, MethodParameter.declaration] at h
  cases hm : r.method? p.declaring p.method with
  | none => simp [hm, bind, Except.bind] at h
  | some m =>
    simp only [hm] at h
    cases hindex : p.index with
    | returned =>
      have ht : m.returnType = some t := by
        simpa [hindex, bind, Except.bind, pure, Except.pure] using h
      exact hp.returns _ _ m hm t ht
    | param position =>
      cases hd : m.params[position]? with
      | none => simp [hindex, MethodParameter.paramAt, hd, bind, Except.bind] at h
      | some d =>
        have ht : d.type = t := by
          simpa [hindex, MethodParameter.paramAt, hd, bind, Except.bind, pure, Except.pure] using h
        exact ht ▸ hp.params _ _ m hm d (List.mem_of_getElem? hd)

/--
Where declared types give all classes their arguments, lookup in contexts agrees with substitution:
for views, for fields seen from a class, and for method parameters.
-/
theorem acts_as_substituted (hi : r.AcyclicInheritance) (hp : r.FullyParameterized) :
    (∀ (c : ClassId) (args : List TypeExpr) (d : ClassId),
      args.length = (r.typeParameters c).length → (∀ a ∈ args, a.IsClosed) →
      ∃ view found,
        Finds (fun limit => asClass r limit (some (ofExpr (c.applyTo args))) d) view ∧
        Finds (fun limit => r.eagerView limit (c.applyTo args) (.ofClass d)) found ∧
        Option.Rel (ActsAs r) view found ∧
        ((∀ a ∈ args, a.IsComplete r) → ∀ t ∈ found, t.IsComplete r)) ∧
    (∀ (declaring implementation : ClassId) (s : TypeExpr),
      r.typeParameters implementation = [] → SeenAs r declaring implementation s →
      (∀ name d, r.field? declaring name = some d →
        ∃ n, Finds (fun limit => ofFieldIn r limit declaring name implementation) (.ok n) ∧
          ActsAs r n (d.type.instantiate (r.bindings s)) ∧
          (d.type.instantiate (r.bindings s)).IsComplete r) ∧
      (∀ (p : MethodParameter) t, p.declaring = declaring → p.containingClass = implementation →
        p.level = 1 → p.declaredType r = .ok (some t) →
        ∃ n, Finds (fun limit => ofMethodParameter r limit p) (.ok (some n)) ∧
          ActsAs r n (t.instantiate (r.bindings s)) ∧
          (t.instantiate (r.bindings s)).IsComplete r)) ∧
    (∀ declaring implementation : ClassId,
      (∀ t, r.Descends (.ofClass implementation) t → t.erasure? ≠ none) →
      ((∃ s, SeenAs r declaring implementation s) ↔
        r.HasAncestor (.ofClass implementation) (.ofClass declaring))) := by
  refine ⟨?_, ?_, ?_⟩
  · intro c args d hlength hargs
    have hself := represents_applyTo hlength hargs
    rcases hself.viewIs hi hp (.ofClass d) with ⟨view, found, hview, hfound, hrel⟩
    refine ⟨view, found, hview, hfound, ?_, ?_⟩
    · cases hrel with
      | some hv => exact .some hv.denotes.actsAs
      | none => exact .none
    · rintro hcomplete t rfl
      rcases hfound with ⟨limit, hlimit⟩
      have hcontext := (hself.denotes.isContext_and_scope hself.isContext).1
      exact ((descends_of_eagerView limit).1 _ _ _ hlimit).isContext_and_isComplete hi hp
        ⟨hcontext, isComplete_applyTo hlength hcomplete⟩ |>.2
  · intro declaring implementation s hparams hs
    constructor
    · intro name d hd
      rcases exists_seenFrom hi hp hparams hs (hp.fields _ _ d hd) with ⟨n, ⟨limit, hn⟩, hacts⟩
      refine ⟨n, ⟨limit, ?_⟩, hacts⟩
      simp [ofFieldIn, Registry.fieldDeclaration, hd, hn]
    · rintro p t rfl rfl hlevel ht
      obtain ⟨n, ⟨limit, hn⟩, hacts⟩ := exists_seenFrom hi hp hparams hs
        (proper_of_declaredType hp ht)
      refine ⟨n, ⟨limit, ?_⟩, hacts⟩
      simp [ofMethodParameter, ht, hn, hlevel, nested, descendFrom]
  · intro declaring implementation herasure
    constructor
    · rintro ⟨s, ⟨limit, hs⟩, hsErasure⟩
      exact ⟨s, (descends_of_eagerView limit).1 _ _ _ hs, hsErasure⟩
    · intro hancestor
      rcases exists_eagerView_of_descends hi herasure with ⟨found, hfound, htarget, hthere⟩
      rcases Option.ne_none_iff_exists'.mp (hthere hancestor) with ⟨s, rfl⟩
      exact ⟨s, hfound, htarget s rfl⟩

/--
A class `Twice<Z>` that implements `Source<Twice<Twice<Z>>>`, and a class `Words` that extends
`Twice<Words>`.
-/
def selfNested : Registry where
  classes := #[
    { name := "Object" },
    { name := "Source", kind := .interface, typeParams := [⟨0⟩],
      fields := [⟨"item", .typeVar ⟨0⟩, []⟩] },
    { name := "Twice", typeParams := [⟨1⟩], interfaces := [.parameterized ⟨1⟩
        [.parameterized ⟨2⟩ [.parameterized ⟨2⟩ [.typeVar ⟨1⟩] none] none] none] },
    { name := "Words", superClass := some (.parameterized ⟨2⟩ [.ofClass ⟨3⟩] none) }]
  typeParams := #[⟨"T", []⟩, ⟨"Z", []⟩]
  index := .empty
  wellKnown := {}

/--
As a `Source`, `Twice<Words>` has `Words` three levels down; its field has it two levels down.
-/
theorem selfNested_actsAs :
    (∃ view, Finds (fun limit => asClass selfNested limit
        (some (ofExpr (ClassId.applyTo ⟨2⟩ [.ofClass ⟨3⟩]))) ⟨1⟩) (some view) ∧
      ErasureAt selfNested [0, 0, 0] view (some (.ofClass ⟨3⟩))) ∧
    ∃ n, Finds (fun limit => ofFieldIn selfNested limit ⟨1⟩ "item" ⟨3⟩) (.ok n) ∧
      ErasureAt selfNested [0, 0] n (some (.ofClass ⟨3⟩)) := by
  have hi : selfNested.AcyclicInheritance :=
    acyclicInheritance_of_supertypesFirst (by decide +kernel)
  have hp : selfNested.FullyParameterized := fullyParameterized_of_check (by decide +kernel)
  let source : TypeExpr := .parameterized ⟨1⟩ [.parameterized ⟨2⟩
    [.parameterized ⟨2⟩ [.ofClass ⟨3⟩] none] none] none
  constructor
  · obtain ⟨view, found, hview, hfound, hrel, -⟩ := (acts_as_substituted hi hp).1
      ⟨2⟩ [.ofClass ⟨3⟩] ⟨1⟩ rfl (by simp [TypeExpr.ofClass, TypeExpr.IsClosed])
    obtain rfl : found = some source :=
      hfound.unique (eagerView_steady _ _ _) (.intro 3 (by decide +kernel))
    cases hrel with
    | some hacts => exact ⟨_, hview, hacts.at_argument [0, 0, 0] (.ofClass ⟨3⟩) rfl⟩
  · have hseen : SeenAs selfNested ⟨1⟩ ⟨3⟩ source := ⟨.intro 4 (by decide +kernel), rfl⟩
    obtain ⟨n, hn, hacts, -⟩ := ((acts_as_substituted hi hp).2.1 ⟨1⟩ ⟨3⟩ source rfl hseen).1
      "item" ⟨"item", .typeVar ⟨0⟩, []⟩ rfl
    exact ⟨n, hn, hacts.at_argument [0, 0] (.ofClass ⟨3⟩) rfl⟩

end Node

end TypeConversion
