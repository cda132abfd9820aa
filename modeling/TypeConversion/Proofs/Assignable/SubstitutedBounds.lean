import TypeConversion.Proofs.Assignable.OpenVariables
import TypeConversion.Proofs.Assignable.Representation

/-!
# Bounds with the type arguments put in place

Type arguments are within the bounds of their parameters if some relation between open variables and
nodes goes on along the bounds.  The nodes that the variables come to be compared with are such a
relation if the bounds hold of them by themselves, with the type arguments put in place of the
parameters: then nothing is left open, and one comparison for each bound is enough.

Lower bounds have to be without variables.  They are compared from the other side, where an open
variable is taken by its own bound whatever it stands for.

**Results**

* `Substitutable.matches`: a node of which a type expression with replaced variables holds matches
  the expression with open variables;
* `withinBounds_of_compared`: type arguments are within their bounds if every node that a variable
  comes to be compared with is within the bound with the arguments put in place;
* `withinBounds_of_substituted`: it is enough that the bounds hold of the arguments if these are all
  that the variables come to be compared with.
-/

namespace TypeConversion

namespace TypeExpr

variable {r : Registry} {t component : TypeExpr} {e : Erasure}

/-! ## Parts of expressions with replaced variables -/

theorem head?_instantiate (h : t.head? = some e) (σ : Bindings) :
    (t.instantiate σ).head? = some e := by
  cases t with
  | plain _ | parameterized _ _ _ => exact h
  | genericArray _ | wildcard _ _ | typeVar _ => simp [head?] at h

theorem arguments_instantiate (h : t.head? = some e) (σ : Bindings) :
    (t.instantiate σ).arguments = t.arguments.map (instantiate σ) := by
  cases t with
  | plain _ => rfl
  | parameterized _ _ _ => simp [instantiate, arguments]
  | genericArray _ | wildcard _ _ | typeVar _ => simp [head?] at h

theorem not_isRaw_instantiate (h : t.head? = some e) (hraw : ¬t.IsRaw r) (σ : Bindings) :
    ¬(t.instantiate σ).IsRaw r := by
  cases t with
  | plain _ | parameterized _ _ _ => exact hraw
  | genericArray _ | wildcard _ _ | typeVar _ => simp [head?] at h

theorem component?_instantiate (h : t.component? = some component) (σ : Bindings) :
    (t.instantiate σ).component? = some (component.instantiate σ) := by
  cases t with
  | plain e =>
    obtain ⟨a, ha, rfl⟩ := Option.map_eq_some_iff.mp h
    simp [instantiate, component?, ha]
  | genericArray u =>
    obtain rfl : u = component := by simpa [component?] using h
    rfl
  | parameterized _ _ _ | wildcard _ _ | typeVar _ => simp [component?] at h

/-- The arguments of a class, unless it is generic and has none, are those written. -/
theorem argumentsIn_eq_arguments {c : ClassId} (h : t.head? = some (.ofClass c))
    (hraw : ¬t.IsRaw r) : t.argumentsIn r = t.arguments := by
  cases t with
  | plain e =>
    obtain rfl : e = .ofClass c := by simpa [head?] using h
    have hparams : r.typeParameters c = [] := by simpa [IsRaw] using hraw
    simp [argumentsIn, arguments, hparams]
  | parameterized _ _ _ => rfl
  | genericArray _ | wildcard _ _ | typeVar _ => simp [head?] at h

end TypeExpr

namespace Node

open Walk TypeExpr

variable {r : Registry}

theorem upperOrTop_instantiate (upper : List TypeExpr) (σ : Bindings) :
    upperOrTop r (upper.map (instantiate σ)) = (upperOrTop r upper).map (instantiate σ) := by
  cases upper <;> rfl

/-! ## What holds by itself, taken apart -/

section

variable {inside : Bool} {n m : Node}

/-- What holds by itself has a plan that does. -/
theorem Holds.exists_planned (h : Holds r inside (some n) (some m)) :
    ∃ p, Planned r n m (bareGuard inside) p ∧ p.Holds r := by
  cases h with
  | decided hplan => exact ⟨_, hplan, rfl⟩
  | components hplan h => exact ⟨_, hplan, h⟩
  | bounds hplan h => exact ⟨_, hplan, h⟩
  | arguments hplan h => exact ⟨_, hplan, h⟩

/-- An array holds of arrays alone, and then its component of theirs. -/
theorem Holds.of_array {component : Node} (h : Holds r inside (some n) (some m))
    (hn : ArrayIs r n true) (hcomponent : ComponentIs r n (some component)) :
    ArrayIs r m true ∧ ∃ k, ComponentIs r m (some k) ∧ Holds r false (some component) (some k) := by
  obtain ⟨p, hplan, hp⟩ := h.exists_planned
  have hnot : ¬ArrayIs r n false := fun hfalse => absurd (hn.unique hfalse) (by decide)
  cases hplan with
  | @components _ other _ harray hc hother =>
    obtain rfl := Finds.unique (componentType_steady r n) hc hcomponent
    obtain ⟨k, rfl⟩ := exists_of_componentIs harray hother
    exact ⟨harray, k, hother, hp⟩
  | noArray _ _ => cases hp
  | remembered harray _ | wildcards harray _ _ _ _ | otherKind harray _ _ _ _
  | theirWildcard harray _ _ _ | ourWildcard harray _ _ _ => exact (hnot harray).elim
  | refused hmeets _ | admitted hmeets _ _ | otherLength hmeets _ _ _ _ _
  | arguments hmeets _ _ _ _ _ => exact (hnot hmeets.noArray).elim

/-- A wildcard that is no array holds of a node if its bounds accept what the node offers. -/
theorem Holds.of_wildcard {w : WildcardBounds} (h : Holds r inside (some n) (some m))
    (hn : ArrayIs r n false) (hw : BoundsAre r n (some w)) :
    ∃ types, Offers r w.kind m types ∧ ∀ b ∈ w.bounds, ∀ k ∈ types,
      Holds r false (boundComparison w.kind b k).ours (boundComparison w.kind b k).theirs := by
  obtain ⟨p, hplan, hp⟩ := h.exists_planned
  have hsome : ¬BoundsAre r n none := fun hnone => by simpa using hw.unique hnone
  cases hplan with
  | components harray _ _ _ | noArray harray _ => exact absurd (harray.unique hn) (by decide)
  | remembered _ hskip => exact (not_remembers_bareGuard _ _ _ hskip).elim
  | wildcards _ _ hours htheirs hkind =>
    obtain rfl := Option.some.inj (hours.unique hw)
    exact ⟨_, .bounds htheirs hkind.symm, hp⟩
  | otherKind _ _ _ _ _ => cases hp
  | ourWildcard _ _ hours htheirs =>
    obtain rfl := Option.some.inj (hours.unique hw)
    exact ⟨_, .self htheirs, hp⟩
  | theirWildcard _ _ hours _ => exact (hsome hours).elim
  | refused hmeets _ | admitted hmeets _ _ | otherLength hmeets _ _ _ _ _
  | arguments hmeets _ _ _ _ _ => exact (hsome hmeets.ours).elim

/-- What a class with type arguments has to do with a node that it holds of. -/
structure HoldsByArguments (r : Registry) (inside : Bool) (n m : Node) (c : ClassId)
    (args ms : List (Option Node)) : Prop where
  noBounds : BoundsAre r m none
  erasure : ∃ e, ErasureIs r m e ∧ OurSide.admits r ⟨.ofClass c, inside, true⟩ e = true
  generics : GenericsAre r n args
  view : ViewArgumentsAre r m (.ofClass c) ms
  pairs : List.Forall₂ (Holds r true) args ms

/-- A class holds of a node by their erasures and type arguments. -/
theorem holds_iff_of_head? {c : ClassId} (hn : n.expr.head? = some (.ofClass c)) :
    Holds r inside (some n) (some m) ↔ ∃ args ms, HoldsByArguments r inside n m c args ms := by
  have hnoArray : ArrayIs r n false := arrayIs_of_head? hn
  have hnoBounds : BoundsAre r n none := boundsAre_of_head? hn
  have hside : SideIs r n m (bareGuard inside).isSome ⟨.ofClass c, inside, true⟩ := by
    rw [isSome_bareGuard]
    exact sideIs_of_head? hn m inside
  constructor
  · intro h
    obtain ⟨p, hplan, hp⟩ := h.exists_planned
    cases hplan with
    | components harray _ _ _ | noArray harray _ =>
      exact absurd (harray.unique hnoArray) (by decide)
    | remembered _ hskip => exact (not_remembers_bareGuard _ _ _ hskip).elim
    | wildcards _ _ hours _ _ | otherKind _ _ hours _ _ | ourWildcard _ _ hours _ =>
      simpa using hours.unique hnoBounds
    | theirWildcard _ _ _ _ | refused _ _ | otherLength _ _ _ _ _ _ => cases hp
    | admitted hmeets _ hwithout =>
      obtain rfl := hmeets.side.unique hside
      simp at hwithout
    | arguments hmeets hadmits _ hours htheirs hlength =>
      obtain rfl := hmeets.side.unique hside
      exact ⟨_, _, hmeets.theirs, ⟨_, hmeets.erasure, hadmits⟩, hours, htheirs,
        List.forall₂_iff_zip.mpr ⟨hlength, fun hmem => hp _ hmem⟩⟩
  · rintro ⟨args, ms, h⟩
    obtain ⟨e, he, hadmits⟩ := h.erasure
    have hmeets : Meets r n m (bareGuard inside) ⟨.ofClass c, inside, true⟩ e :=
      ⟨hnoArray, by simp, hnoBounds, h.noBounds, hside, he⟩
    obtain ⟨hlength, hzip⟩ := List.forall₂_iff_zip.mp h.pairs
    exact .arguments (.arguments hmeets hadmits rfl h.generics h.view hlength)
      fun _ hp => hzip hp

/-- Type arguments that hold of others are compared with arguments that are there. -/
theorem HoldsByArguments.not_missing {c : ClassId} {args ms : List (Option Node)}
    (h : HoldsByArguments r inside n m c args ms) : none ∉ ms := by
  intro hmissing
  obtain ⟨_, -, hholds⟩ := exists_mem_of_forall₂ h.pairs hmissing
  cases hholds

end

/-! ## What open variables come to be compared with -/

section

variable (r : Registry) (c : ClassId) (ks : List Node)

/--
The pairs of a type expression with open variables and a node that are compared when nodes are taken
as type arguments of a class, each of them to be within the bound of its parameter.
-/
inductive Compared : TypeExpr → Node → Prop
  | parameter {v : TypeVarId} {k : Node} (h : (v, k) ∈ (r.typeParameters c).zip ks) :
      Compared (.typeVar v) k
  | bound {v : TypeVarId} {t : TypeExpr} {m : Node} (h : Compared (.typeVar v) m)
      (ht : BoundedBy r v t) : Compared t m
  | argument {t a : TypeExpr} {d : ClassId} {m k : Node} {ms : List (Option Node)}
      (h : Compared t m) (ht : t.head? = some (.ofClass d))
      (hms : ViewArgumentsAre r m (.ofClass d) ms) (hk : (a, some k) ∈ (t.argumentsIn r).zip ms) :
      Compared a k
  | component {t component : TypeExpr} {m k : Node} (h : Compared t m)
      (ht : t.component? = some component) (hk : ComponentIs r m (some k)) : Compared component k
  | upper {upper : List TypeExpr} {b : TypeExpr} {m k : Node} {types : List Node}
      (h : Compared (.wildcard upper []) m) (htypes : Offers r .upper m types)
      (hb : b ∈ upperOrTop r upper) (hk : k ∈ types) : Compared b k

/--
A type expression that is compared alike with open variables and with their arguments put in place:
all classes have their arguments, lower bounds are without variables, and no wildcard is taken for
an array.
-/
inductive Substitutable (σ : TypeVarId → TypeExpr) : TypeExpr → Prop
  | typeVar (v : TypeVarId) : Substitutable σ (.typeVar v)
  | ofClass {t : TypeExpr} {d : ClassId} (ht : t.head? = some (.ofClass d)) (hraw : ¬t.IsRaw r)
      (hargs : ∀ a ∈ t.arguments, Substitutable σ a) : Substitutable σ t
  | array {t component : TypeExpr} (ht : t.component? = some component)
      (h : Substitutable σ component) : Substitutable σ t
  | upper {upper : List TypeExpr} (hopen : OpensNoArray r (.wildcard upper []))
      (harray : ArrayIs r (ofExpr ((wildcard upper []).instantiate fun v => some (σ v))) false)
      (h : ∀ b ∈ upperOrTop r upper, Substitutable σ b) : Substitutable σ (.wildcard upper [])
  | lower {upper lower : List TypeExpr} (hlower : lower ≠ [])
      (hopen : OpensNoArray r (.wildcard upper lower))
      (harray : ArrayIs r (ofExpr ((wildcard upper lower).instantiate fun v => some (σ v))) false)
      (hclosed : AllWellFormed r [] lower) : Substitutable σ (.wildcard upper lower)

end

section

variable {c : ClassId} {ks : List Node} {σ : TypeVarId → TypeExpr} {t : TypeExpr} {m : Node}

/-- What a node that can be read offers to a wildcard can be read. -/
theorem Same.offers (hw : r.DeclaresWellFormed) {kind : WildcardKind} {types : List Node}
    (hm : Same r m m) (htypes : Offers r kind m types) {k : Node} (hk : k ∈ types) :
    Same r k k := by
  cases htypes with
  | self _ =>
    obtain rfl := List.mem_singleton.mp hk
    exact hm
  | bounds hbounds _ =>
    obtain ⟨_, hbounds', hrel⟩ := hm.boundsAre hw hbounds
    obtain rfl := hbounds.unique hbounds'
    cases hrel with
    | some hsame =>
      obtain ⟨_, -, u, -, hu⟩ := exists_mem_of_forall₂ hsame.2 hk
      exact ⟨u, hu, hu⟩

/-- What open variables come to be compared with can be read if the type arguments can. -/
theorem Compared.same_self (hw : r.DeclaresWellFormed) (hks : ∀ k ∈ ks, Same r k k)
    (h : Compared r c ks t m) : Same r m m := by
  induction h with
  | parameter h => exact hks _ (List.of_mem_zip h).2
  | bound _ _ ih => exact ih
  | argument _ _ hms hk ih =>
    obtain ⟨ms', hms', hrel⟩ := ih.viewArgumentsAre hw hms
    obtain rfl := hms.unique hms'
    exact same_self_of_mem hrel (List.of_mem_zip hk).2
  | component _ _ hk ih =>
    obtain ⟨_, hk', hrel⟩ := ih.componentIs hk
    obtain rfl := Finds.unique (componentType_steady r _) hk hk'
    cases hrel with
    | some hsame => exact hsame
  | upper _ htypes _ hk ih => exact ih.offers hw htypes hk

/-! ## Replaced variables and open ones -/

/--
A node of which a type expression holds with its variables replaced matches the expression with its
variables open, where these may stand for the nodes that they come to be compared with.
-/
theorem Substitutable.matches (hw : r.DeclaresWellFormed) (hks : ∀ k ∈ ks, Same r k k)
    (ht : Substitutable r σ t) {inside : Bool} (hm : Compared r c ks t m)
    (h : Holds r inside (some (ofExpr (t.instantiate fun v => some (σ v)))) (some m)) :
    Matches r (fun v k => Compared r c ks (.typeVar v) k) inside t m := by
  induction ht generalizing inside m with
  | typeVar v => exact .typeVar hm
  | @ofClass t d ht hraw _ ih =>
    have hhead := head?_instantiate ht fun v => some (σ v)
    obtain ⟨args, ms, hheld⟩ := (holds_iff_of_head? (n := ofExpr _) hhead).mp h
    obtain ⟨e, he, hadmits⟩ := hheld.erasure
    have hwritten := genericsAre_ofExpr hhead (not_isRaw_instantiate ht hraw _)
    obtain rfl := Finds.unique (generics_steady r _) hwritten hheld.generics
    have hpairs := hheld.pairs
    rw [arguments_instantiate ht, List.map_map, List.forall₂_map_left_iff,
      ← argumentsIn_eq_arguments ht hraw] at hpairs
    obtain ⟨hlength, hzip⟩ := List.forall₂_iff_zip.mp hpairs
    refine .ofClass ht hheld.noBounds he hadmits hheld.view hlength hheld.not_missing
      fun a k hmem => ?_
    have ha : a ∈ t.arguments := argumentsIn_eq_arguments ht hraw ▸ (List.of_mem_zip hmem).1
    exact ih a ha (.argument hm ht hheld.view hmem) (hzip hmem)
  | array ht _ ih =>
    obtain ⟨harray, hcomponent⟩ := array_of_component? (r := r) none
      (component?_instantiate ht fun v => some (σ v))
    obtain ⟨hmArray, k, hk, hholds⟩ := h.of_array harray hcomponent
    exact .array ht hmArray hk (ih (.component hm ht hk) hholds)
  | @upper upper hopen harray _ ih =>
    have hbounds := boundsAre_wildcard (r := r) (upper.map (instantiate fun v => some (σ v))) [] none
    rw [boundsOf_upper, upperOrTop_instantiate] at hbounds
    rw [instantiate, instantiateAll_eq_map] at h harray
    obtain ⟨types, htypes, hholds⟩ := h.of_wildcard harray hbounds
    refine .upper hopen htypes fun b hb k hk => ?_
    exact ih b hb (.upper hm htypes hb hk)
      (hholds _ (List.mem_map_of_mem (List.mem_map_of_mem hb)) k hk)
  | @lower upper lower hlower hopen harray hclosed =>
    have hbounds := boundsAre_wildcard (r := r) (upper.map (instantiate fun v => some (σ v))) lower
      none
    rw [boundsOf_lower _ _ hlower] at hbounds
    rw [instantiate, instantiateAll_eq_self hclosed, instantiateAll_eq_map] at h harray
    obtain ⟨types, htypes, hholds⟩ := h.of_wildcard harray hbounds
    refine .lower hlower hopen htypes fun b hb k hk o _ => ?_
    -- without variables the bound is the same type in all contexts
    have hb' := (allWellFormed_iff _).mp hclosed b hb
    have hsame : Same r (ofExpr b) (written b (some o)) :=
      ⟨b, readsAs_written hb' _, readsAs_written hb' _⟩
    have hk' := (hm.same_self hw hks).offers hw htypes hk
    exact (hholds (ofExpr b) (List.mem_map_of_mem hb) k hk).same hw (.some hk') (.some hsame)

/-! ## Bounds that hold of the arguments -/

/-- The declared bound of a variable, which has no variables left once the type arguments are put in
place, then holds of a node. -/
def WithinSubstituted (r : Registry) (σ : TypeVarId → TypeExpr) (v : TypeVarId) (m : Node) : Prop :=
  ∃ t, BoundedBy r v t ∧ Substitutable r σ t ∧
    (t.instantiate fun v => some (σ v)).WellFormed r [] ∧
    Holds r false (some (ofExpr (t.instantiate fun v => some (σ v)))) (some m)

/--
Type arguments are within the bounds of the parameters of a class if every node that an open
variable comes to be compared with leaves the variable open and is within its bound with the
arguments put in place.
-/
theorem withinBounds_of_compared (σ : TypeVarId → TypeExpr) (hw : r.DeclaresWellFormed)
    (hlength : (r.typeParameters c).length = ks.length) (hks : ∀ k ∈ ks, ∃ u, ReadsAs r k u)
    (hopen : ∀ v k, Compared r c ks (.typeVar v) k → Binds r k.context v none)
    (hbounds : ∀ v k, Compared r c ks (.typeVar v) k → WithinSubstituted r σ v k) :
    WithinBounds r c (ks.map some) := by
  have hks : ∀ k ∈ ks, Same r k k := fun k hk => by
    obtain ⟨u, hu⟩ := hks k hk
    exact ⟨u, hu, hu⟩
  refine ⟨fun v k => Compared r c ks (.typeVar v) k, ks, fun v k hk => ⟨hopen v k hk, ?_⟩, rfl,
    List.forall₂_iff_zip.mpr ⟨hlength, .parameter⟩⟩
  obtain ⟨t, ht, hsubstitutable, -, hholds⟩ := hbounds v k hk
  exact ⟨t, ht, hsubstitutable.matches hw hks (.bound hk ht) hholds⟩

/--
Type arguments are within the bounds of the parameters of a class if each bound holds of the
argument once the arguments are put in place, provided that the open variables come to be compared
with their arguments only, and these leave the variables open.
-/
theorem withinBounds_of_substituted (σ : TypeVarId → TypeExpr) (hw : r.DeclaresWellFormed)
    (hlength : (r.typeParameters c).length = ks.length)
    (hreads : ∀ v k, Compared r c ks (.typeVar v) k → ReadsAs r k (σ v))
    (hopen : ∀ v k, Compared r c ks (.typeVar v) k → Binds r k.context v none)
    (hbounds : ∀ v k, Compared r c ks (.typeVar v) k → WithinSubstituted r σ v (ofExpr (σ v))) :
    WithinBounds r c (ks.map some) := by
  have hparameters : List.Forall₂ (fun v k => Compared r c ks (.typeVar v) k)
      (r.typeParameters c) ks := List.forall₂_iff_zip.mpr ⟨hlength, .parameter⟩
  refine withinBounds_of_compared σ hw hlength (fun k hk => ?_) hopen fun v k hk => ?_
  · obtain ⟨v, -, hv⟩ := exists_mem_of_forall₂ hparameters hk
    exact ⟨_, hreads v k hv⟩
  · obtain ⟨t, ht, hsubstitutable, hwf, hholds⟩ := hbounds v k hk
    have hread := hreads v k hk
    have hsame : Same r (ofExpr (σ v)) k := ⟨_, readsAs_written hread.wellFormed none, hread⟩
    exact ⟨t, ht, hsubstitutable, hwf, hholds.same hw (.some (same_ofExpr hwf)) (.some hsame)⟩

end

end Node

end TypeConversion
