import TypeConversion.Proofs.Assignable.Inversion
import TypeConversion.Proofs.Registry.Base
import TypeConversion.Proofs.Substitution.Expr

/-!
# Comparisons of type expressions

What a comparison finds of a type expression can often be read off the expression: an expression
that names a class resolves to it in every context, a closed expression is an array exactly when it
is written as one, and a wildcard with a single bound is taken for an array when its bound is one.
-/

namespace TypeConversion

namespace TypeExpr

/-- Whether a type expression is written as an array. -/
def isArray : TypeExpr → Bool
  | plain e => e.isArray
  | genericArray _ => true
  | parameterized .. | wildcard .. | typeVar _ => false

/-- What a type expression that is written as an array consists of. -/
def component? : TypeExpr → Option TypeExpr
  | plain e => e.component?.map plain
  | genericArray component => some component
  | parameterized .. | wildcard .. | typeVar _ => none

/-- The array of a class. -/
def arrayOfClass (c : ClassId) : TypeExpr := (ofClass c).arrayOf

/-- The list of a type. -/
def listOf (t : TypeExpr) : TypeExpr := parameterized Bootstrap.wellKnown.list [t] none

/-- A closed type expression is an array or names a class. -/
theorem IsClosed.exists_head? {t : TypeExpr} (ht : t.IsClosed) (h : t.isArray = false) :
    ∃ c, t.head? = some (.ofClass c) := by
  cases t with
  | plain e =>
    obtain ⟨c, rfl⟩ := Registry.exists_eq_ofClass h
    exact ⟨c, rfl⟩
  | parameterized raw args owner => exact ⟨raw, rfl⟩
  | genericArray component => simp [isArray] at h
  | wildcard _ _ | typeVar _ => exact ht.elim

end TypeExpr

namespace Node

open Walk

/-- What the check of two type expressions by themselves answers. -/
def AssignableIs (r : Registry) (t u : TypeExpr) (holds : Bool) : Prop :=
  Finds (fun limit => isAssignableFrom limit r r (some (ofExpr t)) (some (ofExpr u))) holds

variable {r : Registry}

theorem assignableIs_iff (t u : TypeExpr) (holds : Bool) :
    AssignableIs r t u holds ↔
      (Comparison.mk (some (ofExpr t)) (some (ofExpr u)) none).Decides r holds :=
  finds_isAssignableFrom_iff ..

/-! ## Expressions that name a class -/

section

variable {n : Node} {e : Erasure}

theorem resolvesTo_of_head? (h : n.expr.head? = some e) : ResolvesTo r n (some e) := by
  cases he : n.expr with
  | plain a =>
    obtain rfl : a = e := by simpa [he, TypeExpr.head?] using h
    exact (resolvesTo_of_plain he _).mpr rfl
  | parameterized raw args owner =>
    obtain rfl : Erasure.ofClass raw = e := by simpa [he, TypeExpr.head?] using h
    rw [resolvesTo_of_step (by rw [he]; rfl)]
    exact ⟨_, (stepsTo_of_parameterized he _).mpr rfl,
      (resolvesTo_of_plain (expr_written ..) _).mpr rfl⟩
  | genericArray _ | wildcard _ _ | typeVar _ => simp [he, TypeExpr.head?] at h

theorem erasureIs_of_resolvesTo {found : Option Erasure} (h : ResolvesTo r n found) :
    ErasureIs r n (found.getD r.object) := by
  obtain ⟨limit, h⟩ := h
  exact .intro limit (by simp [resolveOr, h])

theorem arrayIs_of_head? (h : n.expr.head? = some e) : ArrayIs r n e.isArray := by
  cases he : n.expr with
  | plain a =>
    obtain rfl : a = e := by simpa [he, TypeExpr.head?] using h
    exact (arrayIs_of_plain he _).mpr rfl
  | parameterized raw args owner =>
    obtain rfl : Erasure.ofClass raw = e := by simpa [he, TypeExpr.head?] using h
    rw [arrayIs_of_step (by rw [he]; rfl)]
    exact ⟨_, (stepsTo_of_parameterized he _).mpr rfl,
      (arrayIs_of_plain (expr_written ..) _).mpr rfl⟩
  | genericArray _ | wildcard _ _ | typeVar _ => simp [he, TypeExpr.head?] at h

theorem wildcardBoundsFrom_of_final {n : Node} (h : n.expr.isFinal = true) (origin : Node) :
    Finds (fun limit => wildcardBoundsFrom r origin limit n) none := by
  have hstep : StepsTo r n none := by
    cases he : n.expr with
    | plain e => exact (stepsTo_of_plain he _).mpr rfl
    | genericArray c => exact (stepsTo_of_genericArray he _).mpr rfl
    | parameterized _ _ _ | wildcard _ _ | typeVar _ => simp [he, TypeExpr.isFinal] at h
  have hwild : n.expr.isWildcard = false := by
    cases he : n.expr <;> simp_all [TypeExpr.isFinal, TypeExpr.isWildcard]
  exact (wildcardBoundsFrom_of_step hwild _).mpr ⟨none, hstep, rfl⟩

theorem wildcardBoundsFrom_of_head? (h : n.expr.head? = some e) (origin : Node) :
    Finds (fun limit => wildcardBoundsFrom r origin limit n) none := by
  cases he : n.expr with
  | plain a => exact wildcardBoundsFrom_of_final (by rw [he]; rfl) origin
  | parameterized raw args owner =>
    refine (wildcardBoundsFrom_of_step (by rw [he]; rfl) _).mpr ?_
    exact ⟨_, (stepsTo_of_parameterized he _).mpr rfl,
      wildcardBoundsFrom_of_final (by rw [sibling, expr_written]; rfl) origin⟩
  | genericArray _ | wildcard _ _ | typeVar _ => simp [he, TypeExpr.head?] at h

theorem boundsAre_of_head? (h : n.expr.head? = some e) : BoundsAre r n none :=
  wildcardBoundsFrom_of_head? h n

/-- What names a class is not a variable: it is compared by its own erasure. -/
theorem sideIs_of_head? (h : n.expr.head? = some e) (other : Node) (inside : Bool) :
    SideIs r n other inside ⟨e, inside, true⟩ := by
  obtain ⟨limit, he⟩ := erasureIs_of_resolvesTo (r := r) (resolvesTo_of_head? h)
  refine .intro limit ?_
  cases hn : n.expr with
  | typeVar v => simp [hn, TypeExpr.head?] at h
  | plain _ | parameterized _ _ _ | genericArray _ | wildcard _ _ => simp [ourSide, hn, he]

/-- A class meets what is no wildcard by its erasure. -/
theorem meets_of_head? {other : Node} {guard : Option Guard} {c : ClassId}
    {found : Option Erasure} (h : n.expr.head? = some (.ofClass c))
    (hnew : ¬Remembers guard n other) (htheirs : BoundsAre r other none)
    (hfound : ResolvesTo r other found) :
    Meets r n other guard ⟨.ofClass c, guard.isSome, true⟩ (found.getD r.object) where
  noArray := arrayIs_of_head? h
  isNew := hnew
  ours := boundsAre_of_head? h
  theirs := htheirs
  side := sideIs_of_head? h other _
  erasure := erasureIs_of_resolvesTo hfound

theorem admits_self (r : Registry) (e : Erasure) (exact withArguments : Bool) :
    OurSide.admits r ⟨e, exact, withArguments⟩ e = true := by
  cases exact <;> simp [OurSide.admits]

/-- A node that has an erasure is its own view. -/
theorem viewArgumentsAre_iff_of_resolvesTo (h : ResolvesTo r n (some e))
    (args : List (Option Node)) : ViewArgumentsAre r n e args ↔ GenericsAre r n args := by
  have hview : ViewIs r (some n) e (some n) := (viewIs_some_iff ..).mpr ⟨some e, h, by simp⟩
  constructor
  · rintro ⟨view, hview', hargs⟩
    obtain rfl := Finds.unique (asErasure_steady r (some n) e) hview hview'
    exact hargs
  · intro hargs
    exact ⟨some n, hview, hargs⟩

end

/-! ## Closed expressions -/

section

variable {t : TypeExpr}

theorem arrayIs_ofExpr (ht : t.IsClosed) : ArrayIs r (ofExpr t) t.isArray := by
  cases t with
  | plain e => exact (arrayIs_of_plain (expr_written ..) _).mpr rfl
  | genericArray c => exact (arrayIs_of_genericArray (expr_written ..) _).mpr rfl
  | parameterized raw args owner => exact arrayIs_of_head? (e := .ofClass raw) rfl
  | wildcard _ _ | typeVar _ => exact ht.elim

theorem componentIs_ofExpr (h : t.isArray = true) :
    ComponentIs r (ofExpr t) (t.component?.map ofExpr) := by
  cases t with
  | plain e =>
    refine (componentIs_plain_iff ..).mpr ?_
    simp only [TypeExpr.component?, Option.map_map]
    rfl
  | genericArray c => exact (componentIs_genericArray_iff ..).mpr rfl
  | parameterized _ _ _ | wildcard _ _ | typeVar _ => simp [TypeExpr.isArray] at h

theorem boundsAre_ofExpr (ht : t.IsClosed) : BoundsAre r (ofExpr t) none := by
  cases t with
  | plain e => exact wildcardBoundsFrom_of_final (by simp [ofExpr, TypeExpr.isFinal]) _
  | genericArray c => exact wildcardBoundsFrom_of_final (by simp [ofExpr, TypeExpr.isFinal]) _
  | parameterized raw args owner => exact boundsAre_of_head? (e := .ofClass raw) rfl
  | wildcard _ _ | typeVar _ => exact ht.elim

/-- The arguments of a class, unless it is generic and has none, are those written. -/
theorem genericsAre_ofExpr {c : ClassId} (h : t.head? = some (.ofClass c)) (hraw : ¬t.IsRaw r) :
    GenericsAre r (ofExpr t) (t.arguments.map fun a => some (ofExpr a)) := by
  cases t with
  | plain e =>
    obtain rfl : e = .ofClass c := by simpa [TypeExpr.head?] using h
    have hparams : r.typeParameters c = [] := by simpa [TypeExpr.IsRaw] using hraw
    refine (genericsAre_plain_iff ..).mpr ?_
    simp [hparams, TypeExpr.arguments]
  | parameterized raw args owner => exact (genericsAre_parameterized_iff ..).mpr rfl
  | genericArray _ | wildcard _ _ | typeVar _ => simp [TypeExpr.head?] at h

end

end Node

end TypeConversion
